import BlockSpec.FileSystem.Denials
import BlockSpec.Proofs.OutputPath

/-! # Where paths lead

In a file system without links a path leads where it says: its names are followed one by one from
the top or from the working directory, `place`, whatever the entries are; entries only decide
whether the way is free. File operations then change one location, and making directories adds
directories and nothing else.

    find p = at place, with its entry     or     free place, in a directory     or     an error

Both kinds of change keep a plain file system plain: without links, every entry in a directory, and
all names proper. -/

namespace BlockSpec

namespace FileSystem

/-- One step along a path, as it is written. -/
def stepTo (l : Location) (name : Text) : Location :=
  if name = ['.'] then l else if name = ['.', '.'] then l.dropLast else l ++ [name]

/-- Where a path says it leads. -/
def place (fs : FileSystem) (p : Path) : Location :=
  (Path.steps p).foldl stepTo (if Path.isAbsolute p then [] else fs.workingDirectory)

/-- A file system without links, where every entry stands in a directory and has a proper name. -/
structure Plain (fs : FileSystem) : Prop where
  no_links : ∀ l target, fs.get? l ≠ some (.link target)
  parents : ∀ l n e, fs.get? (l ++ [n]) = some e → fs.get? l = some .directory
  names : fs.ProperNames

variable {fs fs' : FileSystem} {l m o origin : Location} {n : Text} {e : Entry} {c : Content}
  {p : Path} {t : Text}

@[simp] theorem get?_nil (fs : FileSystem) : fs.get? [] = some .directory := rfl

theorem mem_entries (hl : l ≠ []) (h : fs.get? l = some e) : (l, e) ∈ fs.entries := by
  rw [get?, if_neg hl] at h
  obtain ⟨before, after, heq, -⟩ := List.lookup_eq_some_iff.mp h
  rw [heq]
  exact List.mem_append_right _ List.mem_cons_self

namespace Plain

/-- An entry below the top stands in a directory, under a proper name. -/
theorem exists_parent (hfs : fs.Plain) (hl : l ≠ []) (h : fs.get? l = some e) :
    ∃ o n, l = o ++ [n] ∧ fs.get? o = some .directory ∧ Path.Proper n := by
  obtain ⟨o, n, rfl⟩ := (List.eq_nil_or_concat l).resolve_left hl
  rw [List.concat_eq_append] at h hl ⊢
  exact ⟨o, n, rfl, hfs.parents o n e h,
    hfs.names _ _ (mem_entries hl h) n (List.mem_append_right _ (List.mem_singleton_self n))⟩

theorem get?_dropLast (hfs : fs.Plain) (h : fs.get? l = some .directory) :
    fs.get? l.dropLast = some .directory := by
  by_cases hl : l = []
  · rw [hl]; rfl
  · obtain ⟨o, n, rfl, ho, -⟩ := hfs.exists_parent hl h
    rwa [List.dropLast_concat]

/-- What an entry stands in is a directory, all the way up. -/
theorem get?_of_append (hfs : fs.Plain) {more : List Text} {e : Entry}
    (h : fs.get? (l ++ more) = some e) (hne : more ≠ []) : fs.get? l = some .directory := by
  induction more using List.reverseRecOn generalizing e with
  | nil => exact absurd rfl hne
  | append_singleton more n ih =>
    rw [← List.append_assoc] at h
    have hparent := hfs.parents _ _ _ h
    by_cases hmore : more = []
    · rwa [hmore, List.append_nil] at hparent
    · exact ih hparent hmore

end Plain

/-- Whether an entry is a link. -/
def isLink : Entry → Bool
  | .link _ => true
  | _ => false

/-- The entries tell whether a file system is plain. -/
theorem plain_of_entries (h : ∀ x ∈ fs.entries, isLink x.2 = false ∧
    fs.get? x.1.dropLast = some .directory ∧ ∀ n ∈ x.1, Path.Proper n) : fs.Plain where
  no_links l target hget := by
    by_cases hl : l = []
    · rw [hl] at hget; cases hget
    · exact absurd (h _ (mem_entries hl hget)).1 (by simp [isLink])
  parents l n e hget := by
    have hparent := (h _ (mem_entries (by simp) hget)).2.1
    rwa [List.dropLast_concat] at hparent
  names l e hmem := (h _ hmem).2.2

/-! ### Walks -/

/-- What a way to a location can end at: the entry there, or a free place in a directory. -/
inductive Leads (fs : FileSystem) (l : Location) : Found → Prop
  | entry {e : Entry} : fs.get? l = some e → Leads fs l (.at l e)
  | free {o : Location} {n : Text} : l = o ++ [n] → fs.get? o = some .directory → Path.Proper n →
      fs.get? l = none → Leads fs l (.free l)

/-- One step of a walk in a plain file system: the way must be open where it stands, whatever comes
next is left to the rest. -/
theorem Plain.walk_cons (hfs : fs.Plain) (followLast : Bool) (links : Nat) (origin : Location)
    (name : Text) (rest : List Text) : fs.walk followLast links origin (name :: rest) =
      match fs.get? origin with
      | some .directory =>
        if 255 < name.byteSize then .error .nameTooLong
        else fs.walk followLast links (stepTo origin name) rest
      | some _ => .error .notDirectory
      | none => .error .noEntry := by
  rw [walk]
  rcases fs.get? origin with _ | _ | _ | _
  · rfl
  · simp only [stepTo]
    by_cases hdot : name = ['.']
    · rw [if_pos hdot, if_pos hdot, if_neg (by rw [hdot]; decide)]
    by_cases hup : name = ['.', '.']
    · rw [if_neg hdot, if_pos hup, if_neg hdot, if_pos hup, if_neg (by rw [hup]; decide)]
    rw [if_neg hdot, if_neg hup, if_neg hdot, if_neg hup]
    refine if_congr Iff.rfl rfl ?_
    split
    · rename_i hnone
      cases rest <;> simp [walk, hnone]
    · rename_i hlink
      exact absurd hlink (hfs.no_links _ _)
    · rfl
  · rfl
  · rfl

/-- What a walk that leads somewhere means for its first name. -/
theorem Plain.walk_cons_eq_ok_iff (hfs : fs.Plain) {followLast : Bool} {links : Nat} {name : Text}
    {rest : List Text} {found : Found} :
    fs.walk followLast links origin (name :: rest) = .ok found ↔
      fs.get? origin = some .directory ∧ name.byteSize ≤ 255 ∧
        fs.walk followLast links (stepTo origin name) rest = .ok found := by
  rw [hfs.walk_cons]
  rcases fs.get? origin with _ | _ | _ | _
  · simp
  · by_cases hlong : 255 < name.byteSize
    · simp [hlong, Nat.not_le.mpr hlong]
    · simp [hlong, Nat.not_lt.mp hlong]
  · simp
  · simp

/-- The location that a way ends at. -/
def Found.location : Found → Location
  | .at l _ => l
  | .free l => l

theorem walk_nil (followLast : Bool) (links : Nat) (h : fs.get? l = some e) :
    fs.walk followLast links l [] = .ok (.at l e) := by
  rw [walk, h]

/-- A walk over no names stays where it is. -/
theorem location_of_walk_nil {followLast : Bool} {links : Nat} {found : Found}
    (h : fs.walk followLast links origin [] = .ok found) : found.location = origin := by
  rw [walk] at h
  split at h <;> obtain rfl := Except.ok.inj h <;> rfl

theorem Plain.get?_stepTo_of_dots (hfs : fs.Plain) (h : fs.get? l = some .directory)
    (hn : n = ['.'] ∨ n = ['.', '.']) : fs.get? (stepTo l n) = some .directory := by
  rcases hn with rfl | rfl
  · exact h
  · exact hfs.get?_dropLast h

/-- In a plain file system a walk leads where the names say. -/
theorem Plain.walk_leads (hfs : fs.Plain) {followLast : Bool} {links : Nat} {found : Found} :
    ∀ {names : List Text} {origin : Location}, (∀ n ∈ names, n ≠ [] ∧ '/' ∉ n) →
      (fs.get? origin).isSome = true ∨ names ≠ [] →
      fs.walk followLast links origin names = .ok found →
      fs.Leads (names.foldl stepTo origin) found := by
  intro names
  induction names with
  | nil =>
    intro origin _ horigin h
    obtain ⟨e, he⟩ := Option.isSome_iff_exists.mp (horigin.resolve_right (by simp))
    rw [walk_nil _ _ he] at h
    obtain rfl := Except.ok.inj h
    exact .entry he
  | cons name rest ih =>
    intro origin hnames _ h
    obtain ⟨⟨hne, hslash⟩, hrest⟩ := List.forall_mem_cons.mp hnames
    obtain ⟨hdir, -, h⟩ := hfs.walk_cons_eq_ok_iff.mp h
    by_cases hfree : fs.get? (stepTo origin name) = none ∧ rest = []
    · -- the last name goes into nothing, so it is no step up
      obtain ⟨hnone, rfl⟩ := hfree
      have hup : ¬(name = ['.'] ∨ name = ['.', '.']) := fun hup => by
        rw [hfs.get?_stepTo_of_dots hdir hup] at hnone
        cases hnone
      rw [not_or] at hup
      have hnext : stepTo origin name = origin ++ [name] := by
        rw [stepTo, if_neg hup.1, if_neg hup.2]
      rw [walk, hnone] at h
      obtain rfl := Except.ok.inj h
      exact .free hnext hdir ⟨hne, hup.1, hup.2, hslash⟩ hnone
    · refine ih hrest ?_ h
      rwa [not_and_or, ← ne_eq, ← Option.isSome_iff_ne_none] at hfree

/-- A walk whose last step goes into nothing ends at a directory. -/
theorem Plain.walk_stays (hfs : fs.Plain) {followLast : Bool} {links : Nat} {found : Found}
    {step : Text} (hstep : step = ['.'] ∨ step = ['.', '.']) :
    ∀ {names : List Text} {origin : Location},
      fs.walk followLast links origin (names ++ [step]) = .ok found →
      ∃ l, found = .at l .directory := by
  intro names
  induction names with
  | nil =>
    intro origin h
    obtain ⟨hdir, -, h⟩ := hfs.walk_cons_eq_ok_iff.mp h
    rw [walk_nil _ _ (hfs.get?_stepTo_of_dots hdir hstep)] at h
    exact ⟨_, (Except.ok.inj h).symm⟩
  | cons name rest ih =>
    intro origin h
    exact ih (hfs.walk_cons_eq_ok_iff.mp h).2.2

theorem Leads.location_eq {found : Found} (h : fs.Leads l found) : found.location = l := by
  cases h <;> rfl

/-- A walk ends where it did also when more is added, as long as directories stay. -/
theorem Plain.walk_mono (hfs : fs.Plain) (hfs' : fs'.Plain) {followLast : Bool} {links : Nat}
    {found : Found} (hdirs : ∀ m, fs.get? m = some .directory → fs'.get? m = some .directory)
    (hl : fs'.get? found.location = some e) : ∀ {names : List Text} {origin : Location},
      fs.walk followLast links origin names = .ok found →
      fs'.walk followLast links origin names = .ok (.at found.location e) := by
  intro names
  induction names with
  | nil =>
    intro origin h
    rw [location_of_walk_nil h] at hl ⊢
    exact walk_nil _ _ hl
  | cons name rest ih =>
    intro origin h
    obtain ⟨hdir, hlength, h⟩ := hfs.walk_cons_eq_ok_iff.mp h
    exact hfs'.walk_cons_eq_ok_iff.mpr ⟨hdirs origin hdir, hlength, ih h⟩

/-! ### Looking up paths -/

theorem foldl_stepTo_namesOf (origin : Location) (p : Path) :
    (namesOf p).foldl stepTo origin = (Path.steps p).foldl stepTo origin := by
  rw [namesOf, List.foldl_append, Path.steps]
  split
  · rfl
  · rfl

theorem of_mem_namesOf (h : n ∈ namesOf p) : n ≠ [] ∧ '/' ∉ n := by
  rcases List.mem_append.mp h with h | h
  · obtain ⟨h, hne⟩ := List.mem_filter.mp h
    exact ⟨by simpa using hne, Text.not_mem_of_mem_pieces h⟩
  · split at h
    · rw [List.mem_singleton.mp h]; decide
    · cases h

theorem exists_mem_pieces_ne_nil {c : Char} (hc : c ≠ '/') :
    ∀ q : Text, ∃ x ∈ Text.pieces '/' (q ++ [c]), x ≠ [] := by
  unfold Text.pieces
  intro q
  induction q with
  | nil => exact ⟨[c], by simp [Text.piecesBy, hc], by simp⟩
  | cons d q ih =>
    obtain ⟨x, hx, hne⟩ := ih
    rw [List.cons_append, Text.piecesBy]
    split
    · exact ⟨x, List.mem_cons_of_mem _ hx, hne⟩
    · split
      · exact ⟨[d], List.mem_singleton_self _, by simp⟩
      · exact ⟨_, List.mem_cons_self, by simp⟩

theorem namesOf_ne_nil (hp : p ≠ []) : namesOf p ≠ [] := by
  obtain ⟨q, c, rfl⟩ := (List.eq_nil_or_concat p).resolve_left hp
  rw [List.concat_eq_append, namesOf]
  by_cases hc : c = '/'
  · simp [hc]
  · obtain ⟨x, hx, hne⟩ := exists_mem_pieces_ne_nil hc q
    refine List.append_ne_nil_of_left_ne_nil (List.ne_nil_of_mem (a := x) ?_) _
    exact List.mem_filter.mpr ⟨hx, by simpa using hne⟩

/-- A path that leads somewhere is one that can be used at all, and is walked name by name. -/
theorem find_eq_ok_iff {followLast : Bool} {found : Found} :
    fs.find followLast p = .ok found ↔
      (p ≠ [] ∧ Char.ofNat 0 ∉ p ∧ p.byteSize < 4096) ∧
      fs.walk followLast 40 (if Path.isAbsolute p then [] else fs.workingDirectory) (namesOf p) =
        .ok found := by
  unfold find
  by_cases hne : p = []
  · simp [hne]
  by_cases hzero : Char.ofNat 0 ∈ p
  · simp [hne, hzero]
  by_cases hlong : 4096 ≤ p.byteSize
  · simp [hne, hzero, hlong, Nat.not_lt.mpr hlong]
  · simp [hne, hzero, hlong, Nat.lt_of_not_le hlong]

/-- In a plain file system paths lead where they say. -/
theorem Plain.find_leads (hfs : fs.Plain) {followLast : Bool} {found : Found}
    (h : fs.find followLast p = .ok found) : fs.Leads (fs.place p) found := by
  obtain ⟨⟨hne, -⟩, hwalk⟩ := find_eq_ok_iff.mp h
  rw [place, ← foldl_stepTo_namesOf]
  exact hfs.walk_leads (fun n hn => of_mem_namesOf hn) (Or.inr (namesOf_ne_nil hne)) hwalk

theorem readText_eq_ok_iff :
    fs.readText p = .ok t ↔ ∃ l, fs.find true p = .ok (.at l (.file (.text t))) := by
  unfold readText entryAt?
  constructor
  · intro h
    cases hfind : fs.find true p with
    | error e => simp [hfind] at h
    | ok found =>
      rw [hfind] at h
      rcases found with ⟨l, _ | ⟨text | bytes⟩ | target⟩ | l
      · cases h
      · exact ⟨l, by rw [Except.ok.inj h]⟩
      · cases h
      · cases h
      · cases h
  · rintro ⟨l, hl⟩
    rw [hl]

/-- What is read is the text at the place of the path. -/
theorem Plain.get?_of_readText (hfs : fs.Plain) (h : fs.readText p = .ok t) :
    fs.get? (fs.place p) = some (.file (.text t)) := by
  obtain ⟨l, hfind⟩ := readText_eq_ok_iff.mp h
  cases hfs.find_leads hfind with
  | entry hget => exact hget

theorem place_congr (h : fs'.workingDirectory = fs.workingDirectory) (p : Path) :
    fs'.place p = fs.place p := by
  rw [place, place, h]

/-- A path still leads to its place when more is added, as long as directories stay. -/
theorem Plain.find_mono (hfs : fs.Plain) (hfs' : fs'.Plain)
    (hwd : fs'.workingDirectory = fs.workingDirectory)
    (hdirs : ∀ m, fs.get? m = some .directory → fs'.get? m = some .directory) {followLast : Bool}
    {found : Found} (h : fs.find followLast p = .ok found) (hl : fs'.get? (fs.place p) = some e) :
    fs'.find followLast p = .ok (.at (fs.place p) e) := by
  have hplace := (hfs.find_leads h).location_eq
  rw [← hplace] at hl ⊢
  obtain ⟨husable, hwalk⟩ := find_eq_ok_iff.mp h
  refine find_eq_ok_iff.mpr ⟨husable, ?_⟩
  rw [hwd]
  exact hfs.walk_mono hfs' hdirs hl hwalk

/-- A text can still be read when more is added, as long as it stays at its place. -/
theorem Plain.readText_mono (hfs : fs.Plain) (hfs' : fs'.Plain)
    (hwd : fs'.workingDirectory = fs.workingDirectory)
    (hdirs : ∀ m, fs.get? m = some .directory → fs'.get? m = some .directory)
    (h : fs.readText p = .ok t) {t' : Text}
    (hl : fs'.get? (fs.place p) = some (.file (.text t'))) : fs'.readText p = .ok t' := by
  obtain ⟨l, hfind⟩ := readText_eq_ok_iff.mp h
  exact readText_eq_ok_iff.mpr ⟨_, hfs.find_mono hfs' hwd hdirs hfind hl⟩

/-! ### One location changed -/

theorem get?_put_self (fs : FileSystem) (hl : l ≠ []) (e : Entry) :
    (fs.put l e).get? l = some e := by
  rw [get?_put fs l e hl, if_pos rfl]

theorem get?_put_of_ne (fs : FileSystem) (h : m ≠ l) (e : Entry) :
    (fs.put l e).get? m = fs.get? m := by
  by_cases hm : m = []
  · rw [hm]; rfl
  · rw [get?_put fs l e hm, if_neg h]

theorem get?_erase_self (fs : FileSystem) (hl : l ≠ []) : (fs.erase l).get? l = none := by
  rw [get?_erase fs l hl, if_pos rfl]

theorem get?_erase_of_ne (fs : FileSystem) (h : m ≠ l) : (fs.erase l).get? m = fs.get? m := by
  by_cases hm : m = []
  · rw [hm]; rfl
  · rw [get?_erase fs l hm, if_neg h]

/-- An entry put into a directory; a directory that is there stays one. -/
theorem Plain.put (hfs : fs.Plain) (ho : fs.get? o = some .directory) (hn : Path.Proper n)
    (hlink : ∀ target, e ≠ .link target)
    (hdir : fs.get? (o ++ [n]) = some .directory → e = .directory) :
    (fs.put (o ++ [n]) e).Plain where
  no_links l target := by
    by_cases hl : l = o ++ [n]
    · rw [hl, get?_put_self fs (by simp)]
      intro h
      exact hlink target (Option.some.inj h)
    · rw [get?_put_of_ne fs hl]
      exact hfs.no_links l target
  parents l m e' h := by
    have hl : fs.get? l = some .directory := by
      by_cases hm : l ++ [m] = o ++ [n]
      · rw [(List.append_inj' hm rfl).1]; exact ho
      · rw [get?_put_of_ne fs hm] at h
        exact hfs.parents l m e' h
    by_cases hlo : l = o ++ [n]
    · rw [hlo, get?_put_self fs (by simp), hdir (hlo ▸ hl)]
    · rw [get?_put_of_ne fs hlo, hl]
  names l e' h m hm := by
    rcases List.mem_cons.mp h with heq | h
    · obtain ⟨rfl, -⟩ := Prod.mk.inj heq
      rcases List.mem_append.mp hm with hm | hm
      · by_cases hnil : o = []
        · rw [hnil] at hm; cases hm
        · exact hfs.names _ _ (mem_entries hnil ho) m hm
      · rw [List.mem_singleton.mp hm]; exact hn
    · exact hfs.names l e' (List.mem_filter.mp h).1 m hm

/-- A file taken away. -/
theorem Plain.erase (hfs : fs.Plain) (hl : fs.get? l = some (.file c)) : (fs.erase l).Plain where
  no_links m target := by
    by_cases hm : m = []
    · rw [hm]; simp
    · rw [get?_erase fs l hm]
      split
      · simp
      · exact hfs.no_links m target
  parents m n e h := by
    rw [get?_erase fs l (by simp)] at h
    split at h
    · cases h
    · have hm := hfs.parents m n e h
      rwa [get?_erase_of_ne fs]
      rintro rfl
      rw [hl] at hm
      cases hm
  names m e h := hfs.names m e (List.mem_filter.mp h).1

/-- Writing changes the file at the place of the path. -/
theorem Plain.write_eq (hfs : fs.Plain) (h : fs.write p c = .ok fs') :
    fs' = fs.put (fs.place p) (.file c) ∧ fs'.Plain ∧ fs.place p ≠ [] ∧
      fs.get? (fs.place p) ≠ some .directory := by
  have hfile : ∀ e, fs.get? (fs.place p) = some e → e ≠ .directory →
      (fs.put (fs.place p) (.file c)).Plain ∧ fs.place p ≠ [] ∧
        fs.get? (fs.place p) ≠ some .directory := by
    intro e he hdir
    have hne : fs.place p ≠ [] := by
      intro hnil
      rw [hnil, get?_nil] at he
      exact hdir (Option.some.inj he).symm
    have hget : fs.get? (fs.place p) ≠ some .directory := by
      rw [he]
      exact fun h => hdir (Option.some.inj h)
    obtain ⟨o, n, hon, ho, hn⟩ := hfs.exists_parent hne he
    refine ⟨?_, hne, hget⟩
    rw [hon] at hget ⊢
    exact hfs.put ho hn (by simp) fun h => absurd h hget
  unfold write at h
  cases hfind : fs.find true p with
  | error e => rw [hfind] at h; cases h
  | ok found =>
    rw [hfind] at h
    cases hfs.find_leads hfind with
    | @entry e he =>
      cases e with
      | directory => cases h
      | file content =>
        obtain rfl := Except.ok.inj h
        exact ⟨rfl, hfile _ he (by simp)⟩
      | link target => cases h
    | free hon ho hn hnone =>
      obtain rfl := Except.ok.inj h
      refine ⟨rfl, ?_, by rw [hon]; simp, by rw [hnone]; simp⟩
      rw [hon] at hnone ⊢
      exact hfs.put ho hn (by simp) fun h => by rw [hnone] at h; cases h

/-- An operation that a path must lead somewhere for, and not to a directory, succeeds only so. -/
theorem exists_find_of_eq_ok {α : Type} {followLast : Bool} {result : Except FileError α} {a : α}
    (herror : ∀ e, fs.find followLast p = .error e → result = .error e)
    (hdir : ∀ l, fs.find followLast p = .ok (.at l .directory) → result = .error .isDirectory)
    (h : result = .ok a) :
    ∃ found, fs.find followLast p = .ok found ∧ ∀ l, found ≠ .at l .directory := by
  cases hfind : fs.find followLast p with
  | error e => cases (herror e hfind).symm.trans h
  | ok found =>
    refine ⟨found, rfl, ?_⟩
    rintro l rfl
    cases (hdir l hfind).symm.trans h

theorem exists_find_of_write (h : fs.write p c = .ok fs') :
    ∃ found, fs.find true p = .ok found ∧ ∀ l, found ≠ .at l .directory :=
  exists_find_of_eq_ok (fun e he => by rw [write, he]) (fun l hl => by rw [write, hl]) h

theorem exists_find_of_removeFile (h : fs.removeFile p = .ok fs') :
    ∃ found, fs.find false p = .ok found ∧ ∀ l, found ≠ .at l .directory :=
  exists_find_of_eq_ok (fun e he => by rw [removeFile, he]) (fun l hl => by rw [removeFile, hl]) h

/-- What was written can be read. -/
theorem Plain.readText_of_write (hfs : fs.Plain) (h : fs.write p (.text t) = .ok fs') :
    fs'.readText p = .ok t := by
  obtain ⟨found, hfind, -⟩ := exists_find_of_write h
  obtain ⟨rfl, hplain, hne, hdir⟩ := hfs.write_eq h
  refine readText_eq_ok_iff.mpr ⟨fs.place p, ?_⟩
  refine hfs.find_mono hplain rfl (fun m hm => ?_) hfind (get?_put_self fs hne _)
  rwa [get?_put_of_ne fs]
  rintro rfl
  exact hdir hm

/-- Removing takes the file at the place of the path away. -/
theorem Plain.removeFile_eq (hfs : fs.Plain) (h : fs.removeFile p = .ok fs') :
    fs' = fs.erase (fs.place p) ∧ fs'.Plain ∧ fs.place p ≠ [] := by
  unfold removeFile at h
  cases hfind : fs.find false p with
  | error e => rw [hfind] at h; cases h
  | ok found =>
    rw [hfind] at h
    cases hfs.find_leads hfind with
    | @entry e he =>
      cases e with
      | directory => cases h
      | file content =>
        obtain rfl := Except.ok.inj h
        refine ⟨rfl, hfs.erase he, fun hnil => ?_⟩
        rw [hnil, get?_nil] at he
        cases he
      | link target => exact absurd he (hfs.no_links _ _)
    | free hon ho hn hnone => cases h

/-! ### Directories added -/

/-- Directories were added, and nothing else happened. -/
structure Extends (fs fs' : FileSystem) : Prop where
  workingDirectory : fs'.workingDirectory = fs.workingDirectory
  keeps : ∀ l e, fs.get? l = some e → fs'.get? l = some e
  files : ∀ l c, fs'.get? l = some (.file c) → fs.get? l = some (.file c)
  plain : fs'.Plain

theorem Plain.extends_refl (hfs : fs.Plain) : fs.Extends fs :=
  ⟨rfl, fun _ _ h => h, fun _ _ h => h, hfs⟩

theorem Extends.trans {fs₁ fs₂ fs₃ : FileSystem} (h : fs₁.Extends fs₂) (h' : fs₂.Extends fs₃) :
    fs₁.Extends fs₃ :=
  ⟨h'.workingDirectory.trans h.workingDirectory, fun l e hl => h'.keeps l e (h.keeps l e hl),
    fun l c hl => h.files l c (h'.files l c hl), h'.plain⟩

/-- A new directory stands at a place that was free. -/
theorem Plain.makeDirectory_eq (hfs : fs.Plain) (h : fs.makeDirectory p = .ok fs') :
    ∃ o n, fs' = fs.put (o ++ [n]) .directory ∧ fs.get? (o ++ [n]) = none ∧
      fs.get? o = some .directory ∧ Path.Proper n := by
  unfold makeDirectory at h
  cases hfind : fs.find false (withoutSlash p) with
  | error e => rw [hfind] at h; cases h
  | ok found =>
    rw [hfind] at h
    cases hfs.find_leads hfind with
    | entry he => cases h
    | @free o n hon ho hn hnone =>
      obtain rfl := Except.ok.inj h
      rw [hon] at hnone ⊢
      exact ⟨o, n, rfl, hnone, ho, hn⟩

theorem Plain.extends_makeDirectory (hfs : fs.Plain) (h : fs.makeDirectory p = .ok fs') :
    fs.Extends fs' := by
  obtain ⟨o, n, rfl, hnone, ho, hn⟩ := hfs.makeDirectory_eq h
  refine ⟨rfl, fun l e hl => ?_, fun l c hl => ?_, hfs.put ho hn (by simp) fun _ => rfl⟩
  · rwa [get?_put_of_ne fs]
    rintro rfl
    rw [hnone] at hl; cases hl
  · by_cases heq : l = o ++ [n]
    · rw [heq, get?_put_self fs (by simp)] at hl
      cases hl
    · rwa [get?_put_of_ne fs heq] at hl

/-- What making one directory keeps, making many keeps, whatever is denied. -/
theorem makeDirectories_induction {P : FileSystem → Prop}
    (hstep : ∀ fs p fs', P fs → fs.makeDirectory p = .ok fs' → P fs') (h : P fs) (d : Denials)
    (p : Path) : P (d.makeDirectories fs p).1 := by
  induction hlen : p.length using Nat.strongRecOn generalizing fs p with
  | ind k ih =>
    rw [Denials.makeDirectories]
    simp only
    split
    · exact h
    · split
      · rename_i hmake
        exact hstep _ _ _ h (Denials.eq_ok_of_attempt hmake)
      · split
        · exact h
        · rename_i parent _
          split
          · rename_i hlt
            have hparent := ih parent.length (hlen ▸ hlt) h parent rfl
            split
            · rename_i heq
              rw [heq] at hparent
              exact hparent
            · rename_i heq
              rw [heq] at hparent
              split
              · rename_i hmake
                exact hstep _ _ _ hparent (Denials.eq_ok_of_attempt hmake)
              · exact hparent
          · exact h
      · exact h

theorem Plain.extends_makeDirectories (hfs : fs.Plain) (d : Denials) (p : Path) :
    fs.Extends (d.makeDirectories fs p).1 :=
  makeDirectories_induction
    (fun _ _ _ h hmake => h.trans (h.plain.extends_makeDirectory hmake)) hfs.extends_refl d p

/-! ### Places of modules -/

/-- A location whose name has the extension of modules. -/
def isModule (l : Location) : Bool :=
  (l.getLast?.bind fun n => (Path.splitName n).2) == some Path.moduleExtension

theorem isModule_concat (l : Location) (n : Text) :
    isModule (l ++ [n]) = ((Path.splitName n).2 == some Path.moduleExtension) := by
  rw [isModule, List.getLast?_concat, Option.bind_some]

theorem foldl_stepTo_proper {names : List Text} (hnames : ∀ m ∈ names, Path.Proper m)
    (l : Location) : names.foldl stepTo l = l ++ names := by
  induction names generalizing l with
  | nil => simp
  | cons m names ih =>
    obtain ⟨hm, hnames⟩ := List.forall_mem_cons.mp hnames
    rw [List.foldl_cons, stepTo, if_neg hm.ne_here, if_neg hm.ne_up, ih hnames]
    simp

theorem steps_flatMap {names : List Text} (hnames : ∀ m ∈ names, Path.Proper m) {a : Path}
    (ha : Path.Open a) : Path.steps (a ++ names.flatMap (· ++ ['/'])) = Path.steps a ++ names := by
  induction names generalizing a with
  | nil => simp
  | cons m names ih =>
    obtain ⟨hm, hnames⟩ := List.forall_mem_cons.mp hnames
    have hopen : Path.Open (a ++ (m ++ ['/'])) := Or.inr ⟨a ++ m, by simp⟩
    have hstep : Path.steps (m ++ ['/']) = [m] := by
      rw [Path.steps, Text.pieces_append_cons, Text.pieces_of_not_mem hm.no_slash]
      simp [hm.ne_nil, Text.pieces, Text.piecesBy]
    rw [List.flatMap_cons, ← List.append_assoc, ih hnames hopen, Path.steps_open ha, hstep]
    simp

theorem isAbsolute_below {root : Path} {names : List Text} {last : Text}
    (hnames : ∀ m ∈ names, Path.Proper m) (hlast : Path.isAbsolute last = false) :
    Path.isAbsolute (Path.opened root ++ names.flatMap (· ++ ['/']) ++ last) =
      Path.isAbsolute root := by
  cases root with
  | cons c root =>
    rw [← Path.isAbsolute_opened (c :: root)]
    unfold Path.opened
    split <;> rfl
  | nil =>
    have hrest : Path.isAbsolute (names.flatMap (· ++ ['/']) ++ last) = false := by
      cases names with
      | nil => exact hlast
      | cons m names =>
        rw [List.flatMap_cons, List.append_assoc, List.append_assoc]
        exact (hnames m List.mem_cons_self).isAbsolute_append _
    exact hrest

theorem steps_output {root : Path} {names : List Text} {last : Text}
    (hnames : ∀ m ∈ names, Path.Proper m) (hne : last ≠ []) (hslash : '/' ∉ last) :
    Path.steps (Path.opened root ++ names.flatMap (· ++ ['/']) ++ last) =
      Path.steps root ++ names ++ [last] := by
  have hopen := Path.open_append_flatMap (Path.open_opened root) names
  rw [Path.steps_open hopen, steps_flatMap hnames (Path.open_opened root), Path.steps_opened,
    Path.steps_name hne hslash]

/-- What is below a directory by name is below its place. -/
theorem place_below (fs : FileSystem) {root : Path} {names : List Text} {last : Text}
    (hnames : ∀ m ∈ names, Path.Proper m) (hlast : Path.Proper last) :
    fs.place (Path.opened root ++ names.flatMap (· ++ ['/']) ++ last) =
      fs.place root ++ (names ++ [last]) := by
  have hall : ∀ m ∈ names ++ [last], Path.Proper m :=
    List.forall_mem_append.mpr ⟨hnames, List.forall_mem_singleton.mpr hlast⟩
  have habs : Path.isAbsolute last = false := by simpa using hlast.isAbsolute_append []
  rw [place, isAbsolute_below hnames habs, steps_output hnames hlast.ne_nil hlast.no_slash,
    List.append_assoc, List.foldl_append, foldl_stepTo_proper hall]
  rfl

/-- A path that goes on with names leads to them. -/
theorem place_foldl_join (fs : FileSystem) {names : List Text} (hne : names ≠ [])
    (hnames : ∀ m ∈ names, Path.Proper m) (dir : Path) :
    fs.place (names.foldl Path.join dir) = fs.place dir ++ names := by
  obtain ⟨front, n, rfl⟩ := (List.eq_nil_or_concat names).resolve_left hne
  rw [List.concat_eq_append] at hnames ⊢
  obtain ⟨hfront, hn⟩ := List.forall_mem_append.mp hnames
  have hn : Path.Proper n := List.forall_mem_singleton.mp hn
  rw [Path.foldl_join_concat hfront hn, Text.joinWith_concat, ← List.append_assoc,
    fs.place_below hfront hn]

/-- A path that ends in the step up leads to a directory, if anywhere. -/
theorem Plain.find_up (hfs : fs.Plain) {root : Path} {names : List Text}
    (hnames : ∀ m ∈ names, Path.Proper m) {followLast : Bool} {found : Found}
    (h : fs.find followLast (Path.opened root ++ names.flatMap (· ++ ['/']) ++ ['.', '.']) =
      .ok found) : ∃ l, found = .at l .directory := by
  have hnames' : namesOf (Path.opened root ++ names.flatMap (· ++ ['/']) ++ ['.', '.']) =
      Path.steps root ++ names ++ [['.', '.']] := by
    rw [← steps_output hnames (by decide) (by decide), namesOf, if_neg, List.append_nil]
    · rfl
    · simp
  obtain ⟨-, hwalk⟩ := find_eq_ok_iff.mp h
  rw [hnames'] at hwalk
  exact hfs.walk_stays (.inr rfl) hwalk

/-- The path of a module leads below the output root, to the name of a module, or to a directory. -/
theorem Plain.find_output (hfs : fs.Plain) {root out : Path} (hout : Path.IsOutput root out)
    {followLast : Bool} {found : Found} (h : fs.find followLast out = .ok found) :
    (fs.place root <+: fs.place out ∧ isModule (fs.place out) = true) ∨
      ∃ l, found = .at l .directory := by
  obtain ⟨names, last, hnames, ⟨hlast, hext⟩ | rfl, rfl⟩ := hout
  · rw [fs.place_below hnames hlast]
    refine Or.inl ⟨List.prefix_append _ _, ?_⟩
    rw [← List.append_assoc, isModule_concat, hext]
    exact beq_self_eq_true _
  · exact Or.inr (hfs.find_up hnames h)

/-- The text of a module stands below the output root, under the name of a module. -/
theorem Plain.readText_output (hfs : fs.Plain) {root out : Path} (hout : Path.IsOutput root out)
    (h : fs.readText out = .ok t) :
    fs.place root <+: fs.place out ∧ isModule (fs.place out) = true := by
  obtain ⟨l, hfind⟩ := readText_eq_ok_iff.mp h
  refine (hfs.find_output hout hfind).resolve_right ?_
  rintro ⟨l', hl'⟩
  cases hl'

end FileSystem

end BlockSpec
