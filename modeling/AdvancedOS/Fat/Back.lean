import AdvancedOS.Fat.Cd
import AdvancedOS.Fat.Image

/-!
# Into a directory and back

The cluster of the current directory is told from the root directory by the number 19, which is the
sector where the root directory starts, and a directory is read into a buffer of one sector.

* `ends_cd_found`: what `fat12_cd` does with what it finds;
* `there_and_back_iff`: **entering a directory and going up again restores `curr_dir` and
  `curr_path` exactly if both directories can be searched**, and cluster 0 can be read for the root
  directory;
* `not_there_and_back`: a directory at cluster 19.
-/

namespace AdvancedOS

variable {s s' s₁ s₂ : Fs} {v : Volume} {d : Dir} {l m : Loc} {c : FatIdx}
  {name folder action : CStr} {names : List (List Byte)} {newDir : ℕ} {E : Halt → Fs → Prop}

/-! ## Searching -/

theorem ends_cd_found (hr : Readable s) (hf : foundAt s folder = some l) {P : ℕ → CStr → Prop}
    (hset : ∀ s₁, BuffersOnly s s₁ →
      Ends (fat12SetDir (s.volume.entry l).startCluster.toNat folder) s₁
        (fun _ s₂ => s₂.volume = s.volume ∧ P s₂.currDir s₂.currPath) E)
    (hE : ∀ e s', (∀ c, ¬ s.volume.Chain l [c]) → E e s') :
    Ends (fat12Cd folder) s (fun b s' => b = true ∧ (∃ c, s.volume.Chain l [c]) ∧
      s'.volume = s.volume ∧ P s'.currDir s'.currPath) E := by
  simp only [fat12Cd, ends_bind]
  refine (ends_search_found hr hf).mono ?_ fun _ _ he => he
  rintro _ s₁ ⟨hb, p, rfl, hp⟩
  simp only [ends_bind, ends_get, ends_pure, hp]
  refine (hset s₁ hb).mono ?_ fun _ _ he => he
  rintro - s₂ ⟨hv, hP⟩
  have hfat : s₂.fat = s.fat := congrArg Volume.fat hv
  refine ends_readSubdir (fun c hc => ⟨trivial, ⟨c, ?_⟩, hv, hP⟩) fun e s₃ hno _ =>
    hE e s₃ fun c hc => hno c ?_
  · rwa [hfat] at hc
  · rwa [hfat]

/-- A call that returns has read the current directory, and one that returns `true` has found the
name. -/
theorem found_of_cd (h : fat12Cd folder s = .ok true s') :
    Readable s ∧ ∃ l, foundAt s folder = some l := by
  have hend : Ends (fat12Cd folder) s
      (fun b _ => Readable s ∧ (b = true → ∃ l, foundAt s folder = some l)) fun _ _ => True := by
    simp only [fat12Cd, ends_bind]
    refine ends_search_readable.mono ?_ fun _ _ _ => trivial
    rintro p s₁ ⟨hr, -, hp⟩
    cases p with
    | none => exact (ends_pure _).mpr ⟨hr, fun hb => Bool.noConfusion hb⟩
    | some p =>
      obtain ⟨l, hl, -⟩ := Option.map_eq_some_iff.mp hp.symm
      exact .of_forall (fun _ _ => ⟨hr, fun _ => ⟨l, hl⟩⟩) fun _ _ => trivial
  obtain ⟨hr, hl⟩ := hend.of_ok h
  exact ⟨hr, hl rfl⟩

/-! ## `fat12_set_dir`, with any number -/

theorem setDir_root (hroot : s.currDir = FAT_ROOT_REGION_START) :
    Ends (fat12SetDir newDir action) s (fun _ s' => s' = s.goTo newDir (strcat rootPath action))
      fun _ _ => True := by
  simp only [fat12SetDir, ends_bind, ends_get, ends_ite, ends_changing, ends_setPath]
  exact ⟨fun _ => ⟨fun _ => rfl, fun _ => trivial⟩, fun hn => (hn hroot).elim⟩

theorem setDir_name (hne : s.currDir ≠ FAT_ROOT_REGION_START) (h0 : newDir ≠ 0)
    (hdot : action ≠ dot) (hdd : action ≠ dotDot) :
    Ends (fat12SetDir newDir action) s
      (fun _ s' => s' = s.goTo newDir (strcat (strcat s.currPath rootPath) action))
      fun _ _ => True := by
  unfold dot at hdot
  unfold dotDot at hdd
  simp only [fat12SetDir, ends_bind, ends_get, hne, if_false, h0, ends_changing, hdot, hdd,
    ends_setPath]
  exact ⟨fun _ => rfl, fun _ => trivial⟩

/-- Going up cuts the last name from the path, unless the number is that of the root directory. -/
theorem setDir_dotDot (hne : s.currDir ≠ FAT_ROOT_REGION_START) {n p : List Byte}
    (hp : s.currPath.toList = p ++ slash :: n) (hn : slash ∉ n) :
    Ends (fat12SetDir newDir dotDot) s (fun _ s' => s'.volume = s.volume ∧
      (s'.currPath = rootPath ∨ s'.currPath.toList = p)) fun _ _ => True := by
  obtain ⟨x, hx, hxp⟩ := reverse_after hp hn
  have hdd : dotDot ≠ .ofChars ['.'] := by decide
  have hx' : (strsep 0x2F (some (reverse s.currPath))).2 = some x := hx
  simp only [fat12SetDir, ends_bind, ends_get, hne, ends_changing, dotDot, if_true,
    Fs.change_toFileSystem, hx', ends_setPath, ends_ite, ends_pure, imp_true_iff, and_true]
  exact ⟨fun h => h.elim, fun _ => ⟨fun h => (hdd h).elim, fun _ _ =>
    ⟨fun _ _ => ⟨rfl, .inl trivial⟩, fun _ => ⟨rfl, .inr hxp⟩⟩⟩⟩

/-! ## What a call that returns `true` has done -/

theorem of_cd_root (hroot : s.currDir = FAT_ROOT_REGION_START)
    (h : fat12Cd folder s = .ok true s') : ∃ l, foundAt s folder = some l ∧
      (∃ c, s.volume.Chain l [c]) ∧ s'.volume = s.volume ∧ s'.currDir = s.volume.number (.sub l) ∧
        s'.currPath = strcat rootPath folder := by
  obtain ⟨hr, l, hl⟩ := found_of_cd h
  have hend := ends_cd_found hr hl (E := fun _ _ => True) (P := fun n path =>
    n = s.volume.number (.sub l) ∧ path = strcat rootPath folder) (fun s₁ hb => ?_)
    fun _ _ _ => trivial
  · obtain ⟨-, hc, hv, hn, hpath⟩ := hend.of_ok h
    exact ⟨l, hl, hc, hv, hn, hpath⟩
  · refine (setDir_root (hb.currDir.trans hroot)).mono ?_ fun _ _ he => he
    rintro - s₂ rfl
    exact ⟨hb.volume, rfl, rfl⟩

theorem of_cd_name (hne : s.currDir ≠ FAT_ROOT_REGION_START) (hdot : folder ≠ dot)
    (hdd : folder ≠ dotDot) (hl : foundAt s folder = some l)
    (h0 : (s.volume.entry l).startCluster.toNat ≠ 0) (h : fat12Cd folder s = .ok true s') :
    (∃ c, s.volume.Chain l [c]) ∧ s'.volume = s.volume ∧ s'.currDir = s.volume.number (.sub l) ∧
      s'.currPath = strcat (strcat s.currPath rootPath) folder := by
  have hend := ends_cd_found (found_of_cd h).1 hl (E := fun _ _ => True) (P := fun n path =>
    n = s.volume.number (.sub l) ∧ path = strcat (strcat s.currPath rootPath) folder)
    (fun s₁ hb => ?_) fun _ _ _ => trivial
  · exact (hend.of_ok h).2
  · refine (setDir_name (hb.currDir ▸ hne) h0 hdot hdd).mono ?_ fun _ _ he => he
    rintro - s₂ rfl
    exact ⟨hb.volume, rfl, hb.currPath ▸ rfl⟩

theorem of_cd_dotDot (hne : s.currDir ≠ FAT_ROOT_REGION_START) {n p : List Byte}
    (hp : s.currPath.toList = p ++ slash :: n) (hn : slash ∉ n)
    (h : fat12Cd dotDot s = .ok true s') : ∃ l, foundAt s dotDot = some l ∧
      (∃ c, s.volume.Chain l [c]) ∧ (s'.currPath = rootPath ∨ s'.currPath.toList = p) := by
  obtain ⟨hr, l, hl⟩ := found_of_cd h
  have hend := ends_cd_found hr hl (E := fun _ _ => True) (P := fun _ path =>
    path = rootPath ∨ path.toList = p) (fun s₁ hb => ?_) fun _ _ _ => trivial
  · obtain ⟨-, hc, -, hpath⟩ := hend.of_ok h
    exact ⟨l, hl, hc, hpath⟩
  · refine (setDir_dotDot (hb.currDir ▸ hne) (hb.currPath ▸ hp) hn).mono ?_ fun _ _ he => he
    rintro - s₂ ⟨hv, hpath⟩
    exact ⟨hv.trans hb.volume, hpath⟩

/-! ## There -/

/-- `d` is the current directory, and the current path is the text of the names that lead there. -/
structure AtDir (d : Dir) (names : List (List Byte)) (s : Fs) : Prop where
  curr : s.currDir = s.volume.number d
  path : s.currPath.toList = Path.text slash names
  proper : ∀ n ∈ names, ProperName n
  root : d = .root ↔ names = []
  cluster : ∀ m, d = .sub m → 2 ≤ (s.volume.entry m).startCluster.toNat

/-- The entry at `l`, found under `name`, is that of a directory in `d` at a data cluster, and the
entry found there under `..` holds the cluster of `d`. -/
structure Subdirectory (v : Volume) (d : Dir) (name : CStr) (l : Loc) : Prop where
  found : v.find d name = some l
  directory : IsDirectory (v.entry l)
  name : ProperName name.toList
  cluster : 2 ≤ (v.entry l).startCluster.toNat
  up : ∃ l', v.find (.sub l) dotDot = some l' ∧ (v.entry l').startCluster = v.cluster d

/-- `fat12_cd` to `name` and then to `..` return `true`, and the current directory and path are what
they were. -/
def ThereAndBack (name : CStr) (s : Fs) : Prop :=
  ∃ s₁ s₂, fat12Cd name s = .ok true s₁ ∧ fat12Cd dotDot s₁ = .ok true s₂ ∧
    s₂.currDir = s.currDir ∧ s₂.currPath = s.currPath

theorem Subdirectory.ne_dot (h : Subdirectory v d name l) : name ≠ dot :=
  fun he => h.name.2.1 (congrArg CStr.toList he)

theorem Subdirectory.ne_dotDot (h : Subdirectory v d name l) : name ≠ dotDot :=
  fun he => h.name.2.2 (congrArg CStr.toList he)

theorem ends_down (h : AtDir d names s) (hd : ∀ m, d = .sub m → Searchable s.volume m)
    (hsub : Subdirectory s.volume d name l) (hl : ∃ c, s.volume.Chain l [c])
    (hroom : (Path.text slash (names ++ [name.toList])).length < 50) :
    Ends (fat12Cd name) s (fun b s₁ => b = true ∧ s₁.volume = s.volume ∧
      AtDir (.sub l) (names ++ [name.toList]) s₁) fun _ _ => False := by
  have hf : foundAt s name = some l := (foundAt_eq_find h.curr hd).trans hsub.found
  refine (ends_cd_found (readable_of_searchable h.curr hd) hf (P := fun n path =>
    n = s.volume.number (.sub l) ∧ path.toList = Path.text slash (names ++ [name.toList]))
    (fun s₁ hb => ?_) fun e s' hno => hl.elim hno).mono ?_ fun _ _ he => he
  · have hcurr := hb.currDir.trans h.curr
    cases d with
    | root =>
      obtain rfl := h.root.mp rfl
      have hpath : (strcat rootPath name).toList = Path.text slash ([] ++ [name.toList]) := by
        rw [Path.text_concat_eq]
        rfl
      refine ends_setDir_root hcurr ?_ ⟨hb.volume, rfl, hpath⟩
      rwa [CStr.length, hpath]
    | sub m =>
      have hnames : names ≠ [] := fun hn => by cases h.root.mpr hn
      have hpath : (strcat (strcat s₁.currPath rootPath) name).toList =
          Path.text slash (names ++ [name.toList]) := by
        rw [Path.text_concat hnames, ← h.path, ← hb.currPath]
        exact List.append_assoc _ _ _
      have h2 := hsub.cluster
      refine ends_setDir_name (hcurr ▸ (hd m rfl).cluster) (by omega) hsub.ne_dot hsub.ne_dotDot ?_
        ⟨hb.volume, rfl, hpath⟩
      rwa [CStr.length, hpath]
  · rintro b s₁ ⟨hb, -, hv, hcurr, hpath⟩
    refine ⟨hb, hv, hv ▸ hcurr, hpath, fun n hn => ?_, ?_, ?_⟩
    · rcases List.mem_append.mp hn with hn | hn
      · exact h.proper n hn
      · exact List.mem_singleton.mp hn ▸ hsub.name
    · simp
    · rintro m ⟨⟩
      exact hv ▸ hsub.cluster

/-! ## Back -/

theorem ends_up (h : AtDir (.sub l) (names ++ [name.toList]) s) (hl : Searchable s.volume l)
    (hsub : Subdirectory s.volume d name l) (hnames : d = .root ↔ names = [])
    (hd : ∀ m, d = .sub m → Searchable s.volume m ∧ 2 ≤ (s.volume.entry m).startCluster.toNat)
    (hroot : d = .root → Stops (s.volume.fat 0))
    (hroom : (Path.text slash (names ++ [name.toList])).length < 50) :
    Ends (fat12Cd dotDot) s (fun b s₁ => b = true ∧ s₁.currDir = s.volume.number d ∧
      s₁.currPath.toList = Path.text slash names) fun _ _ => False := by
  obtain ⟨l', hfind, hlink⟩ := hsub.up
  have hsearch : ∀ m, Dir.sub l = .sub m → Searchable s.volume m := by
    rintro m ⟨⟩
    exact hl
  have hf : foundAt s dotDot = some l' := (foundAt_eq_find h.curr hsearch).trans hfind
  have hpath : s.currPath.toList = Path.tail slash names ++ slash :: name.toList := by
    rw [h.path, Path.text_concat_eq]
  -- the link leads to a directory of one cluster
  have hchain : ∃ c, s.volume.Chain l' [c] := by
    cases d with
    | root =>
      refine ⟨0, FatChain.single (fatIdx_eq_some.mpr ?_) (hroot rfl)⟩
      rw [hlink]
      rfl
    | sub m =>
      obtain ⟨c, hc⟩ := (hd m rfl).1.single
      refine ⟨c, ?_⟩
      rw [Volume.Chain, hlink]
      exact hc
  refine (ends_cd_found (readable_of_searchable h.curr hsearch) hf (P := fun n path =>
    n = s.volume.number d ∧ path.toList = Path.text slash names)
    (fun s₁ hb => ?_) fun e s' hno => hchain.elim hno).mono
    (fun b s₁ hs => ⟨hs.1, hs.2.2.2⟩) fun _ _ he => he
  have hne : s₁.currDir ≠ FAT_ROOT_REGION_START := by
    rw [hb.currDir, h.curr]
    exact hl.cluster
  rw [hlink]
  refine ends_setDir_dotDot hne (hb.currPath ▸ hpath) hsub.name.1.2 ?_ ?_ ?_ ?_
  · rw [hb.currPath, CStr.length, h.path]
    exact hroom
  · cases d with
    | root => exact (by decide : (0 : BitVec 16).toNat ≠ FAT_ROOT_REGION_START)
    | sub m => exact (hd m rfl).1.cluster
  · intro h0
    cases d with
    | root =>
      obtain rfl := hnames.mp rfl
      exact ⟨hb.volume, rfl, rfl⟩
    | sub m =>
      have h2 := (hd m rfl).2
      have h0 : (s.volume.entry m).startCluster.toNat = 0 := h0
      omega
  · intro h0 x hx
    cases d with
    | root => exact (h0 rfl).elim
    | sub m =>
      have hne : names ≠ [] := fun hn => by cases hnames.mpr hn
      refine ⟨hb.volume, rfl, ?_⟩
      rw [Path.text_of_ne_nil hne]
      exact hx

/-! ## There and back -/

/-- From the directory that is taken for the root directory, the path becomes `/..`, which is not
the text of names. -/
theorem currDir_ne_of_back (h : AtDir d names s) (hpath : s₂.currPath = s.currPath)
    (h₂ : fat12Cd dotDot s₁ = .ok true s₂) : s₁.currDir ≠ FAT_ROOT_REGION_START := by
  intro hroot
  obtain ⟨-, -, -, -, -, hup⟩ := of_cd_root hroot h₂
  have htext : Path.text slash names = (strcat rootPath dotDot).toList := by
    rw [← h.path, ← hpath, hup]
  have hnames : names = [dotDot.toList] := by
    rw [← Path.components_text fun n hn => (h.proper n hn).1, htext]
    decide
  exact (h.proper dotDot.toList (hnames ▸ List.mem_singleton_self _)).2.2 rfl

theorem searchable_of_back (h : AtDir (.sub m) names s) (hname : ProperName name.toList)
    (hpath : s₂.currPath = s.currPath) (h₁ : fat12Cd name s = .ok true s₁)
    (h₂ : fat12Cd dotDot s₁ = .ok true s₂) : Searchable s.volume m := by
  have hne : s.currDir ≠ FAT_ROOT_REGION_START := by
    intro hroot
    obtain ⟨-, -, -, -, -, hdown⟩ := of_cd_root hroot h₁
    have hdown : s₁.currPath.toList = [] ++ slash :: name.toList := by
      rw [hdown]
      rfl
    obtain ⟨-, -, -, hup⟩ := of_cd_dotDot (currDir_ne_of_back h hpath h₂) hdown hname.1.2 h₂
    have hnames : names ≠ [] := fun hn => by cases h.root.mpr hn
    rw [hpath] at hup
    rcases hup with hup | hup
    · refine hnames ((Path.text_eq_singleton fun n hn => (h.proper n hn).1).mp ?_)
      rw [← h.path, hup]
      rfl
    · have hhead : (Path.text slash names).head? = some slash := Path.head_text
      rw [← h.path, hup] at hhead
      cases hhead
  refine ⟨fun hc => hne (h.curr.trans hc), ?_⟩
  obtain ⟨c, hc⟩ := (found_of_cd h₁).1.resolve_left hne
  exact ⟨c, (chain_currDir h.curr).mp hc⟩

/-- **Into a directory and up again restores the current directory and path if and only if both
directories have a number other than that of the root directory and one cluster, and, if the upper
one is the root directory, the chain of cluster 0 ends there.** -/
theorem there_and_back_iff (h : AtDir d names s) (hsub : Subdirectory s.volume d name l)
    (hroom : (Path.text slash (names ++ [name.toList])).length < 50) :
    ThereAndBack name s ↔ Searchable s.volume l ∧ (∀ m, d = .sub m → Searchable s.volume m) ∧
      (d = .root → Stops (s.volume.fat 0)) := by
  constructor
  · rintro ⟨s₁, s₂, h₁, h₂, -, hpath⟩
    have hd : ∀ m, d = .sub m → Searchable s.volume m := by
      rintro m rfl
      exact searchable_of_back h hsub.name hpath h₁ h₂
    have hl : foundAt s name = some l := (foundAt_eq_find h.curr hd).trans hsub.found
    have hne := currDir_ne_of_back h hpath h₂
    have h2 := hsub.cluster
    have hdown : (∃ c, s.volume.Chain l [c]) ∧ s₁.volume = s.volume ∧
        s₁.currDir = s.volume.number (.sub l) ∧
          s₁.currPath.toList = Path.tail slash names ++ slash :: name.toList := by
      cases d with
      | root =>
        obtain ⟨l₁, hl₁, hc, hv, hn, hp⟩ := of_cd_root h.curr h₁
        obtain rfl := Option.some.inj (hl.symm.trans hl₁)
        obtain rfl := h.root.mp rfl
        exact ⟨hc, hv, hn, congrArg CStr.toList hp⟩
      | sub m =>
        have hcurr : s.currDir ≠ FAT_ROOT_REGION_START := h.curr ▸ (hd m rfl).cluster
        obtain ⟨hc, hv, hn, hp⟩ := of_cd_name hcurr hsub.ne_dot hsub.ne_dotDot hl (by omega) h₁
        have hnames : names ≠ [] := fun hn => by cases h.root.mpr hn
        refine ⟨hc, hv, hn, ?_⟩
        rw [hp, ← Path.text_of_ne_nil hnames, ← h.path]
        exact List.append_assoc _ _ _
    obtain ⟨hc, hv, hn, hp⟩ := hdown
    have hsl : Searchable s.volume l := ⟨fun hc => hne (hn.trans hc), hc⟩
    refine ⟨hsl, hd, ?_⟩
    rintro rfl
    obtain ⟨l', hfind, hlink⟩ := hsub.up
    obtain ⟨l₂, hl₂, ⟨c, hc⟩, -⟩ := of_cd_dotDot hne hp hsub.name.1.2 h₂
    have hf : foundAt s₁ dotDot = some l' := by
      rw [foundAt_eq_find (d := .sub l) (hv ▸ hn) fun m hm => ?_, hv, hfind]
      cases hm
      exact hv ▸ hsl
    obtain rfl := Option.some.inj (hf.symm.trans hl₂)
    -- the link to the root directory holds the cluster 0
    have hzero : fatIdx ((s₁.volume.entry l').startCluster.setWidth 32) = some 0 := by
      rw [hv, hlink]
      exact fatIdx_eq_some.mpr rfl
    obtain rfl : c = 0 := Option.some.inj (hc.head.symm.trans hzero)
    exact hv ▸ hc.stops_of_getLast rfl
  · rintro ⟨hl, hd, hroot⟩
    obtain ⟨b, s₁, h₁, rfl, hv, hat⟩ := exists_ok_iff.mpr (ends_down h hd hsub hl.single hroom)
    have hup := ends_up (d := d) hat (hv ▸ hl) (hv ▸ hsub) h.root
      (fun m hm => hv ▸ ⟨hd m hm, h.cluster m hm⟩) (hv ▸ hroot) hroom
    obtain ⟨b, s₂, h₂, rfl, hcurr, hpath⟩ := exists_ok_iff.mpr hup
    exact ⟨s₁, s₂, h₁, h₂, by rw [hcurr, hv, h.curr], CStr.ext (hpath.trans h.path.symm)⟩

theorem atDir_init (hdir : s.currDir = FAT_ROOT_REGION_START) (hpath : s.currPath = rootPath) :
    AtDir .root [] s where
  curr := hdir
  path := by
    rw [hpath]
    rfl
  proper n hn := (List.not_mem_nil hn).elim
  root := iff_of_true rfl rfl
  cluster m hm := by cases hm

theorem find_root_eq {i : RootIdx} (h : findRoot v.rootDir folder = some i) :
    v.find .root folder = some (.root i) := by
  rw [Volume.find, Volume.places, List.find?_map]
  exact congrArg (Option.map Loc.root) h

theorem oneDirectory.subdirectory :
    Subdirectory oneDirectory.vol .root (.ofChars ['a']) (.root 0) where
  found := by
    refine find_root_eq (findRoot_zero ?_)
    rw [oneDirectory.rootDir_zero]
    decide +kernel
  directory := by
    rw [oneDirectory.entry_root]
    decide
  name := by refine ⟨⟨?_, ?_⟩, ?_, ?_⟩ <;> decide
  cluster := by
    rw [oneDirectory.entry_root]
    decide
  up := by
    refine ⟨.sub 2 1, find_dotDot oneDirectory.wellFormedDirs (oneDirectory.live_iff.mpr rfl)
      oneDirectory.single.directory oneDirectory.chain .root, ?_⟩
    rw [oneDirectory.entry_sub]
    decide

/-- Into the directory at cluster 2 and up again. -/
theorem there_and_back_oneDirectory :
    ∃ s, fat12Init oneDirectory = .ok () s ∧ ThereAndBack (.ofChars ['a']) s := by
  obtain ⟨s, hs, hv, hdir, hpath⟩ := exists_init oneDirectory
  have hsub : Subdirectory s.volume .root (.ofChars ['a']) (.root 0) :=
    hv ▸ oneDirectory.subdirectory
  refine ⟨s, hs, (there_and_back_iff (atDir_init hdir hpath) hsub (by decide)).mpr
    ⟨?_, (fun m hm => by cases hm), fun _ => ?_⟩⟩
  · rw [hv]
    refine ⟨?_, 2, oneDirectory.chain⟩
    rw [oneDirectory.entry_root]
    decide
  · rw [hv, oneDirectory.fat_eq]
    decide

/-! ## A directory at cluster 19 -/

/-- A directory under the name `A`, at cluster 19. -/
def entry19 : FileEntry := directoryEntry (0x41 :: List.replicate 10 0x20) 19

/-- Its link to itself. -/
def selfLink19 : FileEntry := directoryEntry (0x2E :: List.replicate 10 0x20) 19

/-- A drive with this directory. -/
def cluster19 : Fs :=
  { formatted with
    disk := driveOf (fun _ => 0xFFF) (fun i => if i = 0 then entry19 else fun _ => 0) fun _ =>
      sectorOf fun k => if k = 0 then selfLink19 else if k = 1 then rootLink else fun _ => 0 }

namespace cluster19

/-- The volume on this drive. -/
abbrev vol : Volume := onDrive cluster19.disk

theorem fat_eq (c : FatIdx) : vol.fat c = 0xFFF := by
  have h : vol.fat = fun _ => 0xFFF := onDrive_driveOf_fat fun _ => by decide
  rw [h]

theorem entry_root : vol.entry (.root 0) = entry19 := by
  have h : vol.rootDir = fun i => if i = 0 then entry19 else fun _ => 0 := onDrive_driveOf_rootDir
  rw [Volume.entry, h]
  rfl

theorem entry_up : vol.entry (.sub 19 1) = rootLink :=
  @entry_driveOf _ _ (fun _ k => if k = 0 then selfLink19 else
    if k = 1 then rootLink else fun _ => 0) 19 (by decide) 1

theorem chain : vol.Chain (.root 0) [19] := by
  refine FatChain.single (fatIdx_eq_some.mpr ?_) ?_
  · rw [entry_root]
    decide
  · rw [fat_eq]
    decide

theorem subdirectory : Subdirectory vol .root (.ofChars ['a']) (.root 0) where
  found := by
    refine find_root_eq (findRoot_zero ?_)
    rw [show vol.rootDir 0 = entry19 from entry_root]
    decide +kernel
  directory := by
    rw [entry_root]
    decide
  name := by refine ⟨⟨?_, ?_⟩, ?_, ?_⟩ <;> decide
  cluster := by
    rw [entry_root]
    decide
  up := by
    refine ⟨.sub 19 1, ?_, ?_⟩
    · obtain ⟨r, hr⟩ := places_single chain
      have hself : vol.entry (.sub 19 0) = selfLink19 :=
        @entry_driveOf _ _ (fun _ k => if k = 0 then selfLink19 else
          if k = 1 then rootLink else fun _ => 0) 19 (by decide) 0
      have h0 : fat12ConstructFileName (vol.entry (.sub 19 0)) ≠ dotDot := by
        rw [hself]
        decide +kernel
      have h1 : fat12ConstructFileName (vol.entry (.sub 19 1)) = dotDot := by
        rw [entry_up]
        decide +kernel
      rw [Volume.find, hr, List.find?_cons_of_neg (by simpa using h0),
        List.find?_cons_of_pos (by simpa using h1)]
    · rw [entry_up]
      decide

end cluster19

/-- The directory at cluster 19 is not left again. -/
theorem not_there_and_back : ∃ s, fat12Init cluster19 = .ok () s ∧ AtDir .root [] s ∧
    Subdirectory s.volume .root (.ofChars ['a']) (.root 0) ∧
      (Path.text slash ([] ++ [(CStr.ofChars ['a']).toList])).length < 50 ∧
        ¬ ThereAndBack (.ofChars ['a']) s := by
  obtain ⟨s, hs, hv, hdir, hpath⟩ := exists_init cluster19
  have hat : AtDir .root [] s := atDir_init hdir hpath
  have hsub : Subdirectory s.volume .root (.ofChars ['a']) (.root 0) := hv ▸ cluster19.subdirectory
  refine ⟨s, hs, hat, hsub, by decide, ?_⟩
  rintro ⟨s₁, s₂, h₁, h₂, -, hback⟩
  obtain ⟨l, hl, -, -, hcurr, -⟩ := of_cd_root hdir h₁
  have hfound : foundAt s (.ofChars ['a']) = some (.root 0) := by
    rw [foundAt_eq_find (d := .root) hdir (fun m hm => by cases hm), hsub.found]
  obtain rfl := Option.some.inj (hfound.symm.trans hl)
  refine currDir_ne_of_back hat hback h₂ (hcurr.trans ?_)
  rw [Volume.number, hv, cluster19.entry_root]
  decide

end AdvancedOS
