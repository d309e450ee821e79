import AdvancedOS.Fat.Drive

/-!
# Changing the directory

* `foundAt`: the place of the entry that `fat12_find_entry` finds, whatever is there;
* `Searchable`, `foundAt_eq_find`: the directories in which this is what they contain;
* `SoundCd`: what is found is a directory of one cluster other than 19, and the path has room;
* `Located`: the current path is the text of names that lead to the current directory;
* `ends_fat12Cd`: **a sound call keeps this**, and one that finds nothing changes nothing;
* `cd_run`: **every state of a run of sound calls is one whose path leads to what is searched**;
* `not_atPath`: a free entry is entered.
-/

namespace AdvancedOS

variable {s s' s₀ : Fs} {v : Volume} {d d' : Dir} {l : Loc} {c : FatIdx} {cs : List FatIdx}
  {names : List (List Byte)} {folder action path : CStr} {newDir : ℕ} {E : Halt → Fs → Prop}

/-! ## Looking for an entry -/

/-- The place of the entry that the search for `folder` stops at. -/
def foundAt (s : Fs) (folder : CStr) : Option Loc :=
  if s.currDir = FAT_ROOT_REGION_START then (findRoot s.rootDir folder).map .root
  else (fatIdx (BitVec.ofNat 32 s.currDir)).bind fun c =>
    (findSub (entriesOf (List.ofFn (clusterSector s.disk c))) folder).map (.sub c)

/-- The current directory is read without an error. -/
def Readable (s : Fs) : Prop :=
  s.currDir = FAT_ROOT_REGION_START ∨ ∃ c, FatChain s.fat (BitVec.ofNat 32 s.currDir) [c]

theorem ends_search (h : Readable s) : Ends (fat12FindEntry folder) s
    (fun p s' => BuffersOnly s s' ∧ p.map s'.entryAt = (foundAt s folder).map s.volume.entry)
    E := by
  refine ends_fat12FindEntry (fun hroot => ?_) (fun hne c hc => ?_) fun hne e s' hno => ?_
  · refine ⟨BuffersOnly.refl s, ?_⟩
    rw [foundAt, if_pos hroot, Option.map_map, Option.map_map]
    rfl
  · refine ⟨buffersOnly_loaded c, ?_⟩
    rw [foundAt, if_neg hne, hc.head, Option.bind_some, Option.map_map, Option.map_map]
    rfl
  · obtain ⟨c, hc⟩ := h.resolve_left hne
    exact (hno c hc).elim

theorem ends_search_found (h : Readable s) (hf : foundAt s folder = some l) :
    Ends (fat12FindEntry folder) s
      (fun p s' => BuffersOnly s s' ∧ ∃ q, p = some q ∧ s'.entryAt q = s.volume.entry l) E := by
  refine (ends_search h).mono ?_ fun _ _ he => he
  rintro p s' ⟨hb, hp⟩
  rw [hf, Option.map_some] at hp
  exact ⟨hb, Option.map_eq_some_iff.mp hp⟩

theorem ends_search_readable : Ends (fat12FindEntry folder) s
    (fun p s' => Readable s ∧ BuffersOnly s s' ∧
      p.map s'.entryAt = (foundAt s folder).map s.volume.entry)
    fun _ _ => ¬ Readable s := by
  by_cases hr : Readable s
  · exact (ends_search hr).mono (fun _ _ h => ⟨hr, h⟩) fun _ _ h => h
  · obtain ⟨hne, hno⟩ := not_or.mp hr
    exact ends_fat12FindEntry (fun hroot => (hne hroot).elim) (fun _ c hc => (hno ⟨c, hc⟩).elim)
      fun _ _ _ _ _ => hr

theorem readable_of_bind {α : Type} {f : Option EntryPtr → FsKern α} {a : α}
    (h : (fat12FindEntry folder >>= f) s = .ok a s') : Readable s := by
  have hend : Ends (fat12FindEntry folder >>= f) s (fun _ _ => Readable s) fun _ _ => True := by
    rw [ends_bind]
    exact ends_search_readable.mono (fun _ _ h => .of_forall (fun _ _ => h.1) fun _ _ => trivial)
      fun _ _ _ => trivial
  exact hend.of_ok h

theorem readable_of_find {o : Option EntryPtr} (h : fat12FindEntry folder s = .ok o s') :
    Readable s := (ends_search_readable.of_ok h).1

theorem ofNat_toNat_u16 (x : BitVec 16) : BitVec.ofNat 32 x.toNat = x.setWidth 32 := by
  apply BitVec.eq_of_toNat_eq
  rw [BitVec.toNat_ofNat, BitVec.toNat_setWidth]

/-- The number that `curr_dir` has in a directory. -/
def Volume.number (v : Volume) : Dir → ℕ
  | .root => FAT_ROOT_REGION_START
  | .sub l => (v.entry l).startCluster.toNat

/-- The directory does not have the number of the root directory and has one cluster. -/
structure Searchable (v : Volume) (l : Loc) : Prop where
  cluster : (v.entry l).startCluster.toNat ≠ FAT_ROOT_REGION_START
  single : ∃ c, v.Chain l [c]

theorem chain_currDir {cs : List FatIdx} (hcurr : s.currDir = s.volume.number (.sub l)) :
    FatChain s.fat (BitVec.ofNat 32 s.currDir) cs ↔ s.volume.Chain l cs := by
  rw [hcurr, Volume.number, ofNat_toNat_u16]
  exact Iff.rfl

theorem readable_of_searchable (hcurr : s.currDir = s.volume.number d)
    (hd : ∀ l, d = .sub l → Searchable s.volume l) : Readable s := by
  cases d with
  | root => exact .inl hcurr
  | sub l =>
    obtain ⟨c, hc⟩ := (hd l rfl).single
    exact .inr ⟨c, (chain_currDir hcurr).mpr hc⟩

/-- **The search looks through the current directory.** -/
theorem foundAt_eq_find (hcurr : s.currDir = s.volume.number d)
    (hd : ∀ l, d = .sub l → Searchable s.volume l) : foundAt s folder = s.volume.find d folder := by
  cases d with
  | root =>
    rw [foundAt, if_pos (show s.currDir = FAT_ROOT_REGION_START from hcurr), Volume.find,
      Volume.places, List.find?_map]
    rfl
  | sub l =>
    obtain ⟨hne, c, hc⟩ := hd l rfl
    have hidx : fatIdx (BitVec.ofNat 32 s.currDir) = some c := ((chain_currDir hcurr).mpr hc).head
    have hne' : s.currDir ≠ FAT_ROOT_REGION_START := hcurr ▸ hne
    rw [foundAt, if_neg hne', hidx, Option.bind_some, Volume.find, places_sub hc,
      List.flatMap_singleton, List.find?_map]
    rfl

/-! ## `fat12_set_dir` -/

theorem length_strcat (x y : CStr) : (strcat x y).length = x.length + y.length :=
  List.length_append

/-- The current directory and path are set. -/
def Fs.goTo (d : ℕ) (path : CStr) (s : Fs) : Fs :=
  s.change fun v => { v with currDir := d, currPath := path }

@[simp] theorem ends_setPath {Q : Unit → Fs → Prop} :
    Ends (setPath path) s Q E ↔
      (path.length < 50 → Q () (s.change fun v => { v with currPath := path })) ∧
        (¬ path.length < 50 → E (.fault .bounds) s) := by
  simp [setPath]

theorem ends_setDir_root (hroot : s.currDir = FAT_ROOT_REGION_START)
    (hlen : (strcat rootPath action).length < 50) {Q : Unit → Fs → Prop}
    (h : Q () (s.goTo newDir (strcat rootPath action))) :
    Ends (fat12SetDir newDir action) s Q E := by
  simp only [fat12SetDir, ends_bind, ends_get, ends_ite, ends_changing, ends_setPath]
  exact ⟨fun _ => ⟨fun _ => h, fun hn => (hn hlen).elim⟩, fun hn => (hn hroot).elim⟩

theorem ends_setDir_dot (hne : s.currDir ≠ FAT_ROOT_REGION_START) (h0 : newDir ≠ 0)
    {Q : Unit → Fs → Prop} (h : Q () (s.goTo newDir s.currPath)) :
    Ends (fat12SetDir newDir dot) s Q E := by
  simp only [fat12SetDir, ends_bind, ends_get, hne, if_false, h0, ends_changing]
  exact (ends_pure _).mpr h

theorem ends_setDir_name (hne : s.currDir ≠ FAT_ROOT_REGION_START) (h0 : newDir ≠ 0)
    (hdot : action ≠ dot) (hdd : action ≠ dotDot)
    (hlen : (strcat (strcat s.currPath rootPath) action).length < 50) {Q : Unit → Fs → Prop}
    (h : Q () (s.goTo newDir (strcat (strcat s.currPath rootPath) action))) :
    Ends (fat12SetDir newDir action) s Q E := by
  unfold dot at hdot
  unfold dotDot at hdd
  simp only [fat12SetDir, ends_bind, ends_get, hne, if_false, h0, ends_changing, hdot, hdd,
    ends_setPath]
  exact ⟨fun _ => h, fun hn => (hn hlen).elim⟩

theorem reverse_after {n : List Byte} {l : List Byte} (hp : path.toList = l ++ slash :: n)
    (hn : slash ∉ n) : ∃ x, (reverse path).after slash = some x ∧ (reverse x).toList = l := by
  have hmem : slash ∈ (reverse path).toList := by
    change slash ∈ path.toList.reverse
    simp [hp]
  refine ⟨_, if_pos hmem, ?_⟩
  change (List.dropWhile _ path.toList.reverse).tail.reverse = l
  rw [hp]
  exact Path.before_last hn

theorem ends_setDir_dotDot (hne : s.currDir ≠ FAT_ROOT_REGION_START) {n l : List Byte}
    (hp : s.currPath.toList = l ++ slash :: n) (hn : slash ∉ n) (hlen : s.currPath.length < 50)
    (hno : newDir ≠ FAT_ROOT_REGION_START) {Q : Unit → Fs → Prop}
    (hroot : newDir = 0 → Q () (s.goTo FAT_ROOT_REGION_START rootPath))
    (hup : newDir ≠ 0 → ∀ x : CStr, x.toList = l → Q () (s.goTo newDir x)) :
    Ends (fat12SetDir newDir dotDot) s Q E := by
  obtain ⟨x, hx, hxl⟩ := reverse_after hp hn
  have hxlen : (reverse x).length < 50 := by
    have : s.currPath.length = l.length + (n.length + 1) := by
      rw [CStr.length, hp, List.length_append, List.length_cons]
    rw [CStr.length, hxl]
    omega
  have hdd : dotDot ≠ .ofChars ['.'] := by decide
  have hx' : (strsep 0x2F (some (reverse s.currPath))).2 = some x := hx
  have hroot' : rootPath.length < 50 := by decide
  simp only [fat12SetDir, ends_bind, ends_get, hne, ends_changing, dotDot, if_true,
    Fs.change_toFileSystem, hx', ends_setPath, ends_ite, hxlen, hroot', not_true, false_implies,
    and_true, true_implies]
  by_cases h0 : newDir = 0
  · simp only [h0, if_true, not_true, false_implies, and_true, true_implies]
    exact ⟨trivial, fun _ => ⟨fun h => (hdd h).elim, fun _ => hroot h0⟩⟩
  · simp only [h0, if_false, hno, not_false_iff, false_implies, true_and, true_implies, ends_pure]
    exact ⟨fun h => (hdd h).elim, fun _ => hup h0 _ hxl⟩

/-! ## The current directory -/

/-- What is found is a directory of one cluster other than 19, and the path has room for it. -/
structure Enterable (s : Fs) (folder : CStr) (l : Loc) : Prop where
  directory : IsDirectory (s.volume.entry l)
  cluster : (s.volume.entry l).startCluster.toNat ≠ FAT_ROOT_REGION_START
  single : ∃ c, s.volume.Chain l [c]
  room : folder ≠ dot → folder ≠ dotDot → s.currPath.length + 1 + folder.length < 50

/-- What the call finds, if anything, may be entered. -/
def SoundCd (s : Fs) (folder : CStr) : Prop := ∀ l ∈ foundAt s folder, Enterable s folder l

/-- `curr_dir` denotes the directory `d`. -/
def Denotes (v : Volume) (currDir : ℕ) : Dir → Prop
  | .root => currDir = FAT_ROOT_REGION_START
  | .sub l => Live v l ∧ (v.entry l).directory = true ∧ (v.entry l).startCluster.toNat = currDir ∧
    currDir ≠ FAT_ROOT_REGION_START

/-- The current path is the text of names that lead to the current directory `d`, which is read
without an error. -/
structure Located (v : Volume) (names : List (List Byte)) (d : Dir) (s : Fs) : Prop where
  volume : s.volume = v
  path : s.currPath.toList = Path.text slash names
  proper : ∀ n ∈ names, ProperName n
  resolve : v.resolve names = some d
  fits : s.currPath.length < 50
  denotes : Denotes v s.currDir d
  single : ∀ l, d = .sub l → ∃ c, v.Chain l [c]

namespace Located

theorem congr (h : Located v names d s) (hb : BuffersOnly s s') : Located v names d s' where
  volume := hb.volume.trans h.volume
  path := by
    rw [hb.currPath]
    exact h.path
  proper := h.proper
  resolve := h.resolve
  fits := by
    rw [hb.currPath]
    exact h.fits
  denotes := by
    rw [hb.currDir]
    exact h.denotes
  single := h.single

theorem currDir_eq (h : Located v names d s) : s.currDir = s.volume.number d := by
  rw [h.volume]
  cases d with
  | root => exact h.denotes
  | sub l => exact h.denotes.2.2.1.symm

theorem searchable (h : Located v names d s) : ∀ l, d = .sub l → Searchable s.volume l := by
  rintro l rfl
  obtain ⟨-, -, hcl, hne⟩ := h.denotes
  rw [h.volume]
  exact ⟨hcl ▸ hne, h.single l rfl⟩

theorem readable (h : Located v names d s) : Readable s :=
  readable_of_searchable h.currDir_eq h.searchable

theorem foundAt_eq (h : Located v names d s) : foundAt s folder = v.find d folder := by
  rw [foundAt_eq_find h.currDir_eq h.searchable, h.volume]

theorem live (hv : WellFormedDirs v) (h : Located v names d s) : d.Live v :=
  resolve_live hv h.proper h.resolve

end Located

/-! ## Moving -/

@[simp] theorem goTo_volume (n : ℕ) : (s.goTo n path).volume = s.volume := rfl

theorem Located.down (hv : WellFormedDirs v) (h : Located v names d s)
    (hf : v.find d folder = some l) (he : Enterable s folder l) (hl : Live v l)
    (hpath : path.toList = Path.text slash (names ++ [folder.toList])) (hlen : path.length < 50) :
    Located v (names ++ [folder.toList]) (.sub l) (s.goTo (v.entry l).startCluster.toNat path) where
  volume := h.volume
  path := hpath
  proper n hn := by
    rcases List.mem_append.mp hn with hn | hn
    · exact h.proper n hn
    · rw [List.mem_singleton.mp hn, ← name_of_find hf]
      exact hv.names l hl
  resolve := by
    rw [resolve_concat, h.resolve, Option.bind_some]
    exact subdirectory_of_find hf (h.volume ▸ he.directory)
  fits := hlen
  denotes := ⟨hl, (h.volume ▸ he.directory).2, rfl, h.volume ▸ he.cluster⟩
  single m hm := by
    cases hm
    exact h.volume ▸ he.single

theorem ends_setDir_fromRoot (hv : WellFormedDirs v) (h : Located v names .root s)
    (hf : v.find .root folder = some l) (he : Enterable s folder l) :
    Ends (fat12SetDir (v.entry l).startCluster.toNat folder) s
      (fun _ s' => ∃ names' d', Located v names' d' s') E := by
  have hp : Parent v l .root := parent_of_mem trivial (List.mem_of_find?_eq_some hf)
  have hl : Live v l := by
    cases hp
    exact .root (h.volume ▸ he.directory).1
  obtain rfl : names = [] := (resolve_eq_root h.resolve).mp rfl
  have hproper := hv.names l hl
  rw [name_of_find hf] at hproper
  have hpath : (strcat rootPath folder).toList = Path.text slash ([] ++ [folder.toList]) := by
    rw [Path.text_concat_eq]
    rfl
  have hlen : (strcat rootPath folder).length < 50 := by
    have hroom := he.room (fun e => hproper.2.1 (congrArg CStr.toList e))
      fun e => hproper.2.2 (congrArg CStr.toList e)
    have hone : s.currPath.length = rootPath.length := by
      rw [CStr.length, h.path]
      rfl
    rw [length_strcat]
    omega
  exact ends_setDir_root h.denotes hlen ⟨_, _, h.down hv hf he hl hpath hlen⟩

theorem ends_setDir_down (hv : WellFormedDirs v) {m : Loc} (h : Located v names (.sub m) s)
    (hf : v.find (.sub m) folder = some l) (he : Enterable s folder l) (hdot : folder ≠ dot)
    (hdd : folder ≠ dotDot) : Ends (fat12SetDir (v.entry l).startCluster.toNat folder) s
      (fun _ s' => ∃ names' d', Located v names' d' s') E := by
  have hp : Parent v l (.sub m) := parent_of_mem (h.live hv) (List.mem_of_find?_eq_some hf)
  have hdir : IsDirectory (v.entry l) := h.volume ▸ he.directory
  have hl : Live v l := by
    refine live_of_parent hv hp hdir.1 ?_ ?_
    · rwa [name_of_find hf]
    · rwa [name_of_find hf]
  have hnames : names ≠ [] := fun hn => by
    cases (resolve_eq_root h.resolve).mpr hn
  have hpath : (strcat (strcat s.currPath rootPath) folder).toList =
      Path.text slash (names ++ [folder.toList]) := by
    rw [Path.text_concat hnames, ← h.path]
    exact List.append_assoc _ _ _
  have hlen : (strcat (strcat s.currPath rootPath) folder).length < 50 := by
    have hroom : s.currPath.length + rootPath.length + folder.length < 50 := he.room hdot hdd
    rwa [length_strcat, length_strcat]
  have h0 := hv.two_le hl hdir.2
  exact ends_setDir_name h.denotes.2.2.2 (by omega) hdot hdd hlen
    ⟨_, _, h.down hv hf he hl hpath hlen⟩

theorem ends_setDir_self (hv : WellFormedDirs v) {m : Loc} (h : Located v names (.sub m) s)
    (hf : v.find (.sub m) dot = some l) : Ends (fat12SetDir (v.entry l).startCluster.toNat dot) s
      (fun _ s' => ∃ names' d', Located v names' d' s') E := by
  obtain ⟨hm, hdir, hcl, hne⟩ := h.denotes
  obtain ⟨c, hc⟩ := h.single m rfl
  obtain rfl : Loc.sub c 0 = l := Option.some.inj ((find_dot hv hm hdir hc).symm.trans hf)
  rw [(hv.self m c [] hm hdir hc).cluster, Volume.cluster, hcl]
  have h0 := hv.two_le hm hdir
  exact ends_setDir_dot hne (by omega) ⟨names, .sub m, h.congr ⟨rfl, rfl, rfl, rfl⟩⟩

theorem ends_setDir_up (hv : WellFormedDirs v) {m : Loc} (h : Located v names (.sub m) s)
    (hf : v.find (.sub m) dotDot = some l) (he : Enterable s dotDot l) :
    Ends (fat12SetDir (v.entry l).startCluster.toNat dotDot) s
      (fun _ s' => ∃ names' d', Located v names' d' s') E := by
  obtain ⟨hm, hdir, -, hne⟩ := h.denotes
  obtain ⟨c, hc⟩ := h.single m rfl
  -- the last name is that of the directory, and those before it lead to the one above
  obtain ⟨ns, n, rfl⟩ : ∃ ns n, names = ns ++ [n] := by
    cases names using List.reverseRecOn with
    | nil => cases (resolve_eq_root h.resolve).mpr rfl
    | append_singleton ns n => exact ⟨ns, n, rfl⟩
  have hns : ∀ k ∈ ns, ProperName k := fun k hk => h.proper k (List.mem_append_left _ hk)
  have hn : ProperName n := h.proper n (by simp)
  obtain ⟨d, hd, hsub⟩ := Option.bind_eq_some_iff.mp (resolve_concat.symm.trans h.resolve)
  have hlive := resolve_live hv hns hd
  have hp : Parent v m d := by
    obtain ⟨m', hm', -, hp⟩ := subdirectory_live hv hlive hn hsub
    cases hm'
    exact hp
  obtain rfl : Loc.sub c 1 = l := Option.some.inj ((find_dotDot hv hm hdir hc hp).symm.trans hf)
  have hlink := (hv.up m c [] d hm hdir hc hp).cluster
  have hpath : s.currPath.toList = Path.tail slash ns ++ slash :: n := by
    rw [h.path, Path.text_concat_eq]
  refine ends_setDir_dotDot hne hpath hn.1.2 h.fits (h.volume ▸ he.cluster) ?_ ?_
  · intro h0
    obtain rfl : d = .root := by
      cases d with
      | root => rfl
      | sub k =>
        have := hv.two_le hlive.1 hlive.2
        rw [hlink, Volume.cluster] at h0
        omega
    obtain rfl := (resolve_eq_root hd).mp rfl
    have hlen : rootPath.length < 50 := by decide
    exact ⟨[], .root, h.volume, rfl, hns, hd, hlen, rfl, fun k hk => by cases hk⟩
  · intro h0 x hx
    cases d with
    | root =>
      rw [hlink] at h0
      exact (h0 rfl).elim
    | sub k =>
      have hne : ns ≠ [] := fun he => by cases (resolve_eq_root hd).mpr he
      have hlen : x.length < 50 := by
        have hfits := h.fits
        rw [CStr.length, hpath, List.length_append] at hfits
        rw [CStr.length, hx]
        omega
      obtain ⟨b, hb⟩ := he.single
      refine ⟨ns, .sub k, h.volume, ?_, hns, hd, hlen, ⟨hlive.1, hlive.2, ?_, ?_⟩, ?_⟩
      · rw [Path.text_of_ne_nil hne]
        exact hx
      · rw [hlink]
        rfl
      · exact h.volume ▸ he.cluster
      · rintro k' ⟨⟩
        rw [h.volume, Volume.Chain, hlink] at hb
        exact ⟨b, hb⟩

theorem ends_setDir_located (hv : WellFormedDirs v) (h : Located v names d s)
    (hf : v.find d folder = some l) (he : Enterable s folder l) :
    Ends (fat12SetDir (v.entry l).startCluster.toNat folder) s
      (fun _ s' => ∃ names' d', Located v names' d' s') E := by
  cases d with
  | root => exact ends_setDir_fromRoot hv h hf he
  | sub m =>
    by_cases hdot : folder = dot
    · subst hdot
      exact ends_setDir_self hv h hf
    · by_cases hdd : folder = dotDot
      · subst hdd
        exact ends_setDir_up hv h hf he
      · exact ends_setDir_down hv h hf he hdot hdd

/-! ## `fat12_cd` -/

/-- **A sound call returns, and the current path leads to the current directory.** -/
theorem ends_fat12Cd (hv : WellFormedDirs v) (h : Located v names d s) (hc : SoundCd s folder) :
    Ends (fat12Cd folder) s (fun _ s' => ∃ names' d', Located v names' d' s') E := by
  simp only [fat12Cd, ends_bind]
  refine (ends_search h.readable).mono (fun p s₁ hs₁ => ?_) fun _ _ he => he
  obtain ⟨hb, hp⟩ := hs₁
  have h₁ := h.congr hb
  cases p with
  | none => exact (ends_pure _).mpr ⟨names, d, h₁⟩
  | some p =>
    simp only [ends_bind, ends_get, ends_pure]
    obtain ⟨l, hl, hentry⟩ := Option.map_eq_some_iff.mp hp.symm
    have he := hc l hl
    rw [h.foundAt_eq] at hl
    rw [← hentry, h.volume]
    have he₁ : Enterable s₁ folder l :=
      ⟨hb.volume ▸ he.directory, hb.volume ▸ he.cluster, hb.volume ▸ he.single,
        hb.currPath ▸ he.room⟩
    refine (ends_setDir_located hv h₁ hl he₁).mono ?_ fun _ _ he => he
    rintro - s₂ ⟨names', d', h₂⟩
    have hfat : s₂.fat = v.fat := congrArg Volume.fat h₂.volume
    refine ends_readSubdir (fun c _ => ⟨names', d', h₂.congr (buffersOnly_loaded c)⟩) ?_
    intro e s₃ hno
    obtain ⟨c, hchain⟩ := h.volume ▸ he.single
    exact (hno c (by rw [hfat]; exact hchain)).elim

/-- **A call that returns `false` leaves the current directory and path.** -/
theorem ends_fat12Cd_refused (h : Located v names d s) : Ends (fat12Cd folder) s
    (fun b s' => b = false → s'.currDir = s.currDir ∧ s'.currPath = s.currPath)
    fun _ _ => True := by
  simp only [fat12Cd, ends_bind]
  refine (ends_search h.readable).mono (fun p s₁ hs₁ => ?_) fun _ _ he => he
  cases p with
  | none => exact (ends_pure _).mpr fun _ => ⟨hs₁.1.currDir, hs₁.1.currPath⟩
  | some p =>
    -- in this branch nothing but `true` is returned
    simp only [ends_bind, ends_get, ends_pure, Bool.true_eq_false, false_implies]
    exact Ends.of_forall (fun _ _ => Ends.of_forall (fun _ _ => trivial) fun _ _ => trivial)
      fun _ _ => trivial

/-! ## Runs -/

/-- The state after a call that returns. -/
def cdStep (s : Fs) (folder : CStr) : Option Fs :=
  match fat12Cd folder s with
  | .ok _ s' => some s'
  | .error _ _ => none

/-- The current path leads to the directory that is searched. -/
structure AtPath (s : Fs) : Prop where
  leads : ∃ d, s.volume.resolvePath s.currPath = some d ∧ (d = .root ↔ s.currPath = rootPath) ∧
    Denotes s.volume s.currDir d ∧ ∀ folder, ∃ p s', fat12FindEntry folder s = .ok p s' ∧
      p.map s'.entryAt = (s.volume.find d folder).map s.volume.entry
  fits : s.currPath.length < 50
  refused : ∀ folder s', fat12Cd folder s = .ok false s' →
    s'.currDir = s.currDir ∧ s'.currPath = s.currPath

theorem Located.atPath (h : Located v names d s) : AtPath s := by
  refine ⟨⟨d, ?_, ?_, h.volume ▸ h.denotes, fun folder => ?_⟩, h.fits, fun folder s' hs' => ?_⟩
  · rw [h.volume, resolvePath_text h.path h.proper, h.resolve]
  · rw [resolve_eq_root h.resolve, ← Path.text_eq_singleton fun n hn => (h.proper n hn).1, ← h.path]
    exact ⟨fun he => CStr.ext he, fun he => he ▸ rfl⟩
  · obtain ⟨p, s', hs', -, hp⟩ := exists_ok_iff.mpr (@ends_search s folder _ h.readable)
    refine ⟨p, s', hs', ?_⟩
    rw [hp, h.foundAt_eq, h.volume]
  · exact ((ends_fat12Cd_refused h).of_ok hs') rfl

theorem located_init {disk : Word → Sector} (hv : s.volume = onDrive disk)
    (hdir : s.currDir = FAT_ROOT_REGION_START) (hpath : s.currPath = rootPath) :
    Located (onDrive disk) [] .root s := by
  have hlen : rootPath.length < 50 := by decide
  refine ⟨hv, ?_, fun n hn => (List.not_mem_nil hn).elim, rfl, hpath ▸ hlen, hdir, fun l hl => ?_⟩
  · rw [hpath]
    rfl
  · cases hl

/-- **On a well-formed volume, every state of a run of sound calls after `fat12_init` has a path
that leads to the directory that is searched, and there every sound call returns.** -/
theorem cd_run (hv : WellFormedDirs (onDrive s₀.disk)) : ∃ s₁, fat12Init s₀ = .ok () s₁ ∧
    ∀ s, Run.Reach cdStep SoundCd s₁ s →
      AtPath s ∧ ∀ folder, SoundCd s folder → (cdStep s folder).isSome := by
  obtain ⟨⟨⟩, s₁, h₁, hloc⟩ := exists_ok_iff.mpr (ends_fat12Init
    (Q := fun _ s' => Located (onDrive s₀.disk) [] .root s') fun s' => located_init)
  refine ⟨s₁, h₁, fun s hs => ?_⟩
  have hinv : ∃ names d, Located (onDrive s₀.disk) names d s := by
    refine hs.invariant (I := fun s => ∃ names d, Located (onDrive s₀.disk) names d s)
      ⟨_, _, hloc⟩ ?_
    rintro s folder s' ⟨names, d, h⟩ hc hs'
    unfold cdStep at hs'
    split at hs'
    · rename_i b s'' hok
      cases hs'
      exact (ends_fat12Cd (E := fun _ _ => True) hv h hc).of_ok hok
    · cases hs'
  obtain ⟨names, d, h⟩ := hinv
  refine ⟨h.atPath, fun folder hc => ?_⟩
  obtain ⟨b, s', hok, -⟩ := exists_ok_iff.mpr (ends_fat12Cd hv h hc)
  simp [cdStep, hok]

theorem foundAt_oneDirectory {s : Fs} (hv : s.volume = oneDirectory.vol)
    (hdir : s.currDir = FAT_ROOT_REGION_START) :
    foundAt s (.ofChars ['a']) = some (.root 0) := by
  have hname : fat12ConstructFileName entryA = .ofChars ['a'] := by decide +kernel
  have hroot : s.rootDir = oneDirectory.vol.rootDir := congrArg Volume.rootDir hv
  have hfind : findRoot oneDirectory.vol.rootDir (.ofChars ['a']) = some 0 :=
    findRoot_zero (oneDirectory.rootDir_zero ▸ hname)
  rw [foundAt, if_pos hdir, hroot, hfind]
  rfl

theorem exists_init_oneDirectory : ∃ s₁, fat12Init oneDirectory = .ok () s₁ ∧
    s₁.volume = oneDirectory.vol ∧ s₁.currDir = FAT_ROOT_REGION_START ∧
      s₁.currPath = rootPath :=
  exists_init oneDirectory

/-- The directory is entered. -/
theorem cd_run_oneDirectory : ∃ s₁ s, fat12Init oneDirectory = .ok () s₁ ∧
    cdStep s₁ (.ofChars ['a']) = some s ∧ AtPath s := by
  obtain ⟨s₁, h₁, hv, hdir, hpath⟩ := exists_init_oneDirectory
  obtain ⟨s₂, h₂, hrun⟩ := @cd_run oneDirectory oneDirectory.wellFormedDirs
  cases h₁.symm.trans h₂
  have hsound : SoundCd s₁ (.ofChars ['a']) := by
    intro l hl
    obtain rfl : Loc.root 0 = l := Option.some.inj ((foundAt_oneDirectory hv hdir).symm.trans hl)
    refine ⟨?_, ?_, ⟨2, hv ▸ oneDirectory.chain⟩, ?_⟩
    · rw [hv, oneDirectory.entry_root]
      decide
    · rw [hv, oneDirectory.entry_root]
      decide
    · rw [hpath]
      decide
  obtain ⟨s, hs⟩ := Option.isSome_iff_exists.mp ((hrun s₁ .init).2 _ hsound)
  exact ⟨s₁, s, h₁, hs, (hrun s (.step _ .init hsound hs)).1⟩

theorem oneDirectory.findRoot_dot : findRoot oneDirectory.vol.rootDir dot = some 1 := by
  have hnameA : fat12ConstructFileName entryA ≠ dot := by decide +kernel
  have hnameFree : fat12ConstructFileName (fun _ => 0) = dot := by decide +kernel
  have hfree : oneDirectory.vol.rootDir 1 = fun _ => 0 := oneDirectory.rootDir_of_ne (by decide)
  refine findRoot_eq_some (hfree ▸ hnameFree) fun j hj => ?_
  obtain rfl : j = 0 := by
    have hj' : (j : ℕ) < 1 := hj
    exact Fin.ext (by simpa using hj')
  rwa [oneDirectory.rootDir_zero]

/-- That entry is entered. -/
theorem not_atPath : WellFormedDirs (onDrive oneDirectory.disk) ∧
    ∃ s₁, fat12Init oneDirectory = .ok () s₁ ∧
      ∃ s, Run.Reach cdStep (fun _ _ => True) s₁ s ∧ ¬ AtPath s := by
  refine ⟨oneDirectory.wellFormedDirs, ?_⟩
  obtain ⟨s₁, h₁, hv, hdir, hpath⟩ := exists_init_oneDirectory
  have hroot : s₁.rootDir = oneDirectory.vol.rootDir := congrArg Volume.rootDir hv
  have hfat : s₁.fat = oneDirectory.vol.fat := congrArg Volume.fat hv
  have hnameA : fat12ConstructFileName entryA ≠ dot := by decide +kernel
  have hfree : oneDirectory.vol.rootDir 1 = fun _ => 0 := oneDirectory.rootDir_of_ne (by decide)
  have hcd : Ends (fat12Cd dot) s₁ (fun _ s => s.volume = oneDirectory.vol ∧
      s.currPath = strcat rootPath dot) fun _ _ => False := by
    simp only [fat12Cd, ends_bind]
    refine ends_fat12FindEntry (fun _ => ?_) (fun hne => (hne hdir).elim) fun hne => (hne hdir).elim
    rw [hroot, oneDirectory.findRoot_dot]
    simp only [Option.map_some, ends_bind, ends_get, ends_pure]
    have hentry : s₁.entryAt (.root 1) = fun _ => 0 := by
      change s₁.rootDir 1 = _
      rw [hroot, hfree]
    rw [hentry]
    refine ends_setDir_root hdir (by decide) (ends_readSubdir (fun c _ => ⟨hv, rfl⟩) ?_)
    intro e s' hno
    refine (hno 0 (FatChain.single (fatIdx_eq_some.mpr (by decide)) ?_)).elim
    change Stops (s₁.fat 0)
    rw [hfat, oneDirectory.fat_eq]
    decide
  obtain ⟨b, s, hs, hvol, hpath'⟩ := exists_ok_iff.mpr hcd
  refine ⟨s₁, h₁, s, .step dot .init trivial (by simp [cdStep, hs]), fun h => ?_⟩
  obtain ⟨d, hd, -⟩ := h.leads
  -- no directory is listed under `.` in the root
  have hnames : Path.components slash (strcat rootPath dot).toList = [] ++ [dot.toList] := by decide
  have hhead : (strcat rootPath dot).toList.head? = some slash := by decide
  rw [hvol, hpath', Volume.resolvePath, if_pos hhead, hnames, resolve_concat] at hd
  obtain ⟨d', hd', hsub⟩ := Option.bind_eq_some_iff.mp hd
  obtain rfl : Dir.root = d' := Option.some.inj hd'
  obtain ⟨l, hl, hdirectory, hname, -⟩ := subdirectory_spec hsub
  obtain ⟨i, -, rfl⟩ := List.mem_map.mp hl
  by_cases hi : i = 0
  · subst hi
    rw [oneDirectory.entry_root] at hname
    exact hnameA (CStr.ext hname)
  · change IsDirectory (oneDirectory.vol.rootDir i) at hdirectory
    rw [oneDirectory.rootDir_of_ne hi] at hdirectory
    exact hdirectory.1.1.1 rfl

end AdvancedOS
