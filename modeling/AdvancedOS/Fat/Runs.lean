import AdvancedOS.Fat.WellFormed

/-!
# Runs that keep the volume well formed

* `Room`: what creating a file needs: clusters within the volume, a free entry, and a name that does
  not overrun the attributes with a label or a directory;
* `WellFormed.create`, `WellFormed.remove`: then the volume stays well formed, and so it does when
  an entry without clusters is deleted;
* `SoundCall`: the calls that meet this;
* `wellFormed_run`: **runs of such calls keep the volume well formed**;
* `not_wellFormed`: a file is deleted and its cluster is not given back.
-/

namespace AdvancedOS

open Function (update)

variable {s s' s₀ : Fs} {op : FsOp} {v : Volume} {size : ℤ} {t x : CStr} {i : RootIdx}

/-- There is room for a file of `size` bytes under a name in two parts. A file without bytes is
given all free clusters, so there may be none. -/
def Room (v : Volume) (size : ℤ) (t x : CStr) : Prop :=
  0 ≤ size ∧
    if size = 0 then
      freeClusters v.fat = [] ∧
        ∀ i ∈ newEntry v.rootDir, (attributeByte (v.rootDir i) t x).getLsbD 4 = false
    else
      clustersFor size.toNat ≤ (freeClusters v.fat).length ∧
        (∀ c ∈ (freeClusters v.fat).take (clustersFor size.toNat), (c : ℕ) ≤ v.last) ∧
          t.toList.head? ≠ some 0xE5 ∧ ∃ i, newEntry v.rootDir = some i ∧
            (attributeByte (v.rootDir i) t x).getLsbD 3 = false ∧
              (attributeByte (v.rootDir i) t x).getLsbD 4 = false

/-- The call finds room for the file that it enters, and what it deletes has no clusters. -/
def SoundCall (s : Fs) (op : FsOp) : Prop :=
  (∀ p ∈ creates s op, Room s.volume p.1 (p.2.before 0x2E) (extensionOf p.2 s)) ∧
    ∀ i ∈ removes s op, InUse (s.rootDir i) →
      (s.rootDir i).directory = false ∧ (s.rootDir i).fileLength = 0

/-! ## Numbers -/

theorem numClusters_eq (h : 0 ≤ size) : numClusters size = (clustersFor size.toNat : ℕ) := by
  have h512 : (FAT_SECTOR_SIZE : ℤ) = 512 := rfl
  rw [numClusters, h512, Int.tmod_eq_emod_of_nonneg h, Int.tdiv_eq_ediv_of_nonneg h, clustersFor]
  split_ifs <;> omega

theorem ofInt_toNat (h : 0 ≤ size) (hlt : size < 2 ^ 32) :
    (BitVec.ofInt 32 size).toNat = size.toNat := by
  rw [BitVec.toNat_ofInt]
  omega

theorem size_lt {fat : FatIdx → Word} (h : clustersFor size.toNat ≤ (freeClusters fat).length) :
    size < 2 ^ 32 := by
  have hcard := (freeClusters_nodup : (freeClusters fat).Nodup).length_le_card
  rw [Fintype.card_fin] at hcard
  have h3072 : FAT_NUM_ENTRY = 3072 := rfl
  rw [clustersFor] at h
  omega

theorem ofNat_fatIdx (c : FatIdx) : (BitVec.ofNat 16 c).setWidth 32 = BitVec.ofNat 32 c := by
  have hc : (c : ℕ) < 3072 := c.isLt
  apply BitVec.eq_of_toNat_eq
  rw [BitVec.toNat_setWidth, BitVec.toNat_ofNat, BitVec.toNat_ofNat]
  omega

/-! ## Creating a file -/

theorem label_enterFile {e : FileEntry} {c : ℕ} (ht : t.length < 20) (hx : x.length < 24) :
    (enterFile e t x c size).label = (attributeByte e t x).getLsbD 3 := by
  rw [FileEntry.label, enterFile_attribute ht hx, BitVec.getLsbD_or]
  simp

theorem directory_enterFile {e : FileEntry} {c : ℕ} (ht : t.length < 20) (hx : x.length < 24) :
    (enterFile e t x c size).directory = (attributeByte e t x).getLsbD 4 := by
  rw [FileEntry.directory, enterFile_attribute ht hx, BitVec.getLsbD_or]
  simp

theorem not_hasClusters_newEntry (h : newEntry v.rootDir = some i) : ¬ HasClusters v (.root i) := by
  rintro ⟨hl, -⟩
  cases hl with
  | root hu => exact hu.1.1 (newEntry_free h)

theorem WellFormed.create (hv : WellFormed v) (hr : Room v size t x)
    (hfit : ∀ i, newEntry v.rootDir = some i → t.length < 20 ∧ x.length < 24) :
    WellFormed (v.create size t x) := by
  obtain ⟨h0, hr⟩ := hr
  have hnum := numClusters_eq h0
  split_ifs at hr with hz
  · -- nothing is free, so nothing is linked
    obtain ⟨hfree, hattr⟩ := hr
    have halloc : allocate (numClusters size) v.fat = (v.fat, 0) :=
      (allocate_short fun k hk e => by rw [hfree]; exact hk).1 hfree
    cases hn : newEntry v.rootDir with
    | none =>
      have : v.create size t x = v := by
        unfold Volume.create
        rw [hn, halloc]
      rwa [this]
    | some i =>
      obtain ⟨ht, hx⟩ := hfit i hn
      refine @WellFormed.update v _ [] i _ hv
        ⟨Volume.create_disk .., Volume.create_bootsector .., Volume.create_rootDir_some hn,
          fun c hc => (List.not_mem_nil hc).elim, fun c _ => by rw [Volume.create_fat, halloc],
          not_hasClusters_newEntry hn, fun _ => ?_, fun _ _ => ⟨?_, rfl⟩, fun _ hl => ?_, fun _ => rfl⟩
      · rw [directory_enterFile ht hx]
        exact hattr i hn
      · rw [enterFile_startCluster, halloc]
        rfl
      · rw [enterFile_fileLength, hz] at hl
        exact (hl rfl).elim
  · obtain ⟨hlen, hlast, hmark, i, hn, hlab, hdir⟩ := hr
    obtain ⟨ht, hx⟩ := hfit i hn
    have hpos : 0 < clustersFor size.toNat := by
      rw [clustersFor]
      omega
    obtain ⟨c, cs, htake, hlaid, hstart⟩ := allocate_enough hpos hnum hlen
    rw [htake] at hlast
    have hmem : ∀ d ∈ c :: cs, d ∈ freeClusters v.fat := fun d hd =>
      List.mem_of_mem_take (htake ▸ hd)
    have hsize : (enterFile (v.rootDir i) t x (allocate (numClusters size) v.fat).2
        size).fileLength.toNat = size.toNat := by
      rw [enterFile_fileLength, ofInt_toNat h0 (size_lt hlen)]
    have huse : InUse (enterFile (v.rootDir i) t x (allocate (numClusters size) v.fat).2 size) :=
      ⟨(used_enterFile ht hx).mpr hmark, (label_enterFile ht hx).trans hlab⟩
    refine @WellFormed.update v _ (c :: cs) i _ hv
      ⟨Volume.create_disk .., Volume.create_bootsector .., Volume.create_rootDir_some hn,
        fun d hd => ?_, fun d hd => ?_, not_hasClusters_newEntry hn, fun _ => ?_, fun _ hl => ?_,
        fun _ _ => ⟨?_, ?_, fun d hd => ?_⟩, fun hu => (hu huse).elim⟩
    · obtain ⟨h2, hd0⟩ := mem_freeClusters.mp (hmem d hd)
      exact ⟨hd0, h2, hlast d hd⟩
    · rw [Volume.create_fat]
      exact hlaid.frame d hd (Option.some_ne_none d).symm
    · rw [directory_enterFile ht hx]
      exact hdir
    · rw [hl] at hsize
      change 0 = _ at hsize
      omega
    · rw [Volume.create_fat, enterFile_startCluster, hstart, ofNat_fatIdx]
      exact hlaid.chain
    · rw [hsize, ← htake, List.length_take, Nat.min_eq_left hlen]
    · rw [Volume.create_fat]
      have hs := hlaid.chain.stops_of_getLast hd
      rw [hlaid.ends d (List.mem_of_mem_getLast? hd) (if_pos hs)]
      decide

theorem WellFormed.remove (hv : WellFormed v) (h : ¬ HasClusters v (.root i)) :
    WellFormed (v.remove i) :=
  @WellFormed.update v _ [] i _ hv ⟨rfl, rfl, rfl, fun _ hc => (List.not_mem_nil hc).elim,
    fun _ _ => rfl, h, fun hu => (not_used_removed hu.1).elim, fun hu => (not_used_removed hu.1).elim,
    fun hu => (not_used_removed hu.1).elim, fun _ => rfl⟩

/-! ## Runs -/

/-- **A call that finds room, or deletes nothing that has clusters, keeps the volume well formed.** -/
theorem wellFormed_step (hv : WellFormed s.volume) (hc : SoundCall s op)
    (hs : fsStep s op = some s') : WellFormed s'.volume := by
  have hfits := fsStep_fits hs
  obtain ⟨hroom, hrm⟩ := hc
  rw [(fsStep_volume hs).1]
  unfold effect
  cases hcr : creates s op with
  | some p =>
    obtain ⟨size, name⟩ := p
    refine hv.create (hroom _ hcr) fun i hi => ?_
    have hfit := hfits _ hcr (Option.isSome_iff_exists.mpr ⟨i, hi⟩)
    exact ⟨hfit.before_lt, hfit.2⟩
  | none =>
    cases hre : removes s op with
    | none => exact hv
    | some i =>
      apply hv.remove
      rintro ⟨hl, hor⟩
      cases hl with
      | root hu =>
        obtain ⟨hdir, hlen⟩ := hrm i hre hu
        rcases hor with h | h
        · exact Bool.false_ne_true (hdir.symm.trans h)
        · exact h hlen

/-- **Every state of a run whose calls find room for what they enter, and delete nothing that has
clusters, has a well-formed volume.** -/
theorem wellFormed_run (hv : WellFormed s₀.volume) (h : Run.Reach fsStep SoundCall s₀ s) :
    WellFormed s.volume :=
  h.invariant (I := fun s => WellFormed s.volume) hv fun _ _ _ hi hg hs => wellFormed_step hi hg hs

/-! ## The formatted drive -/

theorem not_live (h : ∀ i, ¬ InUse (v.rootDir i)) {l : Loc} : ¬ Live v l := by
  intro hl
  induction hl with
  | root hu => exact h _ hu
  | sub _ _ _ _ _ _ ih => exact ih

theorem wellFormed_empty (d : Word → Sector) : WellFormed { formatted.volume with disk := d } := by
  have hlive : ∀ {l}, ¬ Live { formatted.volume with disk := d } l :=
    not_live fun i hu => hu.1.1 rfl
  have hmedia : 0x0FF0 ≤ formatted.volume.fat 0 := by decide
  refine ⟨hmedia, fun l hl => (hlive hl.1).elim, fun l hl => (hlive hl).elim,
    fun l hl => (hlive hl).elim, fun l l' c hc => (hlive hc.1.1).elim, fun c h2 _ => ?_⟩
  refine iff_of_false ?_ ?_
  · have h0 : c ≠ 0 := by
      rintro rfl
      exact absurd h2 (by decide)
    have h1 : c ≠ 1 := by
      rintro rfl
      exact absurd h2 (by decide)
    simp [formatted, FileSystem.volume, h0, h1]
  · rintro ⟨l, hl⟩
    exact hlive hl.1.1

theorem wellFormed_formatted : WellFormed formatted.volume := wellFormed_empty _

theorem newEntry_formatted : newEntry formatted.rootDir = some 0 := by decide +kernel

theorem freeClusters_head {fat : FatIdx → Word} {c : FatIdx} (h2 : 2 ≤ (c : ℕ)) (h : fat c = 0)
    (hlt : ∀ d : FatIdx, 2 ≤ (d : ℕ) → (d : ℕ) < c → fat d ≠ 0) :
    (freeClusters fat).head? = some c := by
  unfold freeClusters
  rw [List.head?_filter, List.find?_eq_some_iff_getElem]
  have hlen : (c : ℕ) - 2 < ((List.finRange FAT_NUM_ENTRY).drop 2).length := by
    rw [List.length_drop, List.length_finRange]
    have := c.isLt
    omega
  refine ⟨decide_eq_true h, c - 2, hlen, ?_, fun j hj => ?_⟩
  · rw [List.getElem_drop, List.getElem_finRange, Fin.ext_iff]
    exact Nat.add_sub_cancel' h2
  · rw [List.getElem_drop, List.getElem_finRange, Bool.not_eq_true', decide_eq_false_iff_not]
    refine hlt _ (Nat.le_add_right 2 j) ?_
    change 2 + j < c
    omega

theorem freeClusters_formatted : ∃ l, freeClusters formatted.fat = 2 :: l :=
  List.head?_eq_some_iff.mp <| freeClusters_head (by decide) (by decide) fun d h2 hd => by
    have h2' : 2 ≤ (d : ℕ) := h2
    have hd' : (d : ℕ) < 2 := hd
    omega

theorem Room.of_head {c : FatIdx} (hc : (freeClusters v.fat).head? = some c) (hlast : (c : ℕ) ≤ v.last)
    (ht : t.toList.head? ≠ some 0xE5) (hi : newEntry v.rootDir = some i)
    (h3 : (attributeByte (v.rootDir i) t x).getLsbD 3 = false)
    (h4 : (attributeByte (v.rootDir i) t x).getLsbD 4 = false) : Room v 1 t x := by
  obtain ⟨l, hl⟩ := List.head?_eq_some_iff.mp hc
  refine ⟨by decide, ?_⟩
  rw [if_neg (by decide), hl]
  refine ⟨Nat.le_add_left 1 _, fun d hd => ?_, ht, i, hi, h3, h4⟩
  obtain rfl : d = c := List.mem_singleton.mp hd
  exact hlast

theorem room_oneByte {v : Volume} (hfat : v.fat = formatted.fat)
    (hroot : v.rootDir = formatted.rootDir) (hboot : v.bootsector = formatted.bootsector) :
    Room v 1 (.ofChars ['a']) (.ofChars ['b']) := by
  obtain ⟨l, hfree⟩ := freeClusters_formatted
  refine .of_head (c := 2) (hfat ▸ List.head?_eq_some_iff.mpr ⟨l, hfree⟩) ?_ (by decide)
    (hroot ▸ newEntry_formatted) (by rw [hroot]; decide) (by rw [hroot]; decide)
  rw [Volume.last, hboot]
  decide +kernel

theorem soundCall_oneByte {s : Fs} (hfat : s.fat = formatted.fat)
    (hroot : s.rootDir = formatted.rootDir) (hboot : s.bootsector = formatted.bootsector) :
    SoundCall s oneByte := by
  refine ⟨fun p hp => ?_, fun i hi => (Option.not_mem_none i hi).elim⟩
  cases hp
  exact room_oneByte hfat hroot hboot

/-- Two files of one byte are entered, and one is deleted that is not there. -/
def threeCalls : List FsOp := [oneByte, .create [] 1 (.ofChars "c.d".toList), .rm (.ofChars "e.f".toList)]

theorem wellFormed_run_threeCalls : ∃ s, Run.exec fsStep formatted threeCalls = some s ∧
    (s.fat 2 = 0x0FFF ∧ s.fat 3 = 0x0FFF) ∧ WellFormed s.volume := by
  have hrun : (fsStep formatted oneByte).any (fun s₁ => s₁.fat 2 ≠ 0 ∧ s₁.fat 3 = 0 ∧
      3 ≤ s₁.volume.last ∧ newEntry s₁.rootDir = some 1 ∧
      (attributeByte (s₁.rootDir 1) (.ofChars ['c']) (.ofChars ['d'])).getLsbD 3 = false ∧
      (attributeByte (s₁.rootDir 1) (.ofChars ['c']) (.ofChars ['d'])).getLsbD 4 = false ∧
      (fsStep s₁ (.create [] 1 (.ofChars "c.d".toList))).any fun s₂ =>
        removes s₂ (.rm (.ofChars "e.f".toList)) = none ∧
        (fsStep s₂ (.rm (.ofChars "e.f".toList))).any fun s =>
          s.fat 2 = 0x0FFF ∧ s.fat 3 = 0x0FFF) := by decide +kernel
  obtain ⟨s₁, h₁, hP⟩ := (Option.any_eq_true _ _).mp hrun
  obtain ⟨h2, h3, hlast, hnew, ha, hb, hrun⟩ := of_decide_eq_true hP
  obtain ⟨s₂, h₂, hP⟩ := (Option.any_eq_true _ _).mp hrun
  obtain ⟨hrm, hrun⟩ := of_decide_eq_true hP
  obtain ⟨s, h, hP⟩ := (Option.any_eq_true _ _).mp hrun
  have hsound : SoundCall s₁ (.create [] 1 (.ofChars "c.d".toList)) := by
    refine ⟨fun p hp => ?_, fun i hi => (Option.not_mem_none i hi).elim⟩
    cases hp
    refine .of_head (c := 3) (freeClusters_head (by decide) h3 fun d h2d hd => ?_) hlast (by decide)
      hnew ha hb
    have hd2 : (d : ℕ) = 2 := Nat.le_antisymm (Nat.le_of_lt_succ hd) h2d
    rwa [show d = 2 from Fin.ext hd2]
  have hsound' : SoundCall s₂ (.rm (.ofChars "e.f".toList)) := by
    refine ⟨fun p hp => (Option.not_mem_none p hp).elim, fun i hi => ?_⟩
    rw [hrm] at hi
    exact (Option.not_mem_none i hi).elim
  have hexec : Run.exec fsStep formatted threeCalls = some s := by
    simp only [threeCalls, Run.exec, Option.mem_def.mp h₁, Option.mem_def.mp h₂, Option.mem_def.mp h,
      Option.bind_some]
  refine ⟨s, hexec, of_decide_eq_true hP, wellFormed_run wellFormed_formatted ?_⟩
  exact ((Run.Reach.step oneByte .init (soundCall_oneByte rfl rfl rfl) h₁).step _ hsound h₂).step _
    hsound' h

/-- A file is deleted: its cluster is taken and belongs to nothing. -/
theorem not_wellFormed : WellFormed formatted.volume ∧
    ∃ s, Run.Reach fsStep (fun _ _ => True) formatted s ∧ ¬ WellFormed s.volume := by
  have hrun : (fsStep formatted oneByte).any (fun s => s.fat 2 = 0x0FFF ∧
      findRoot s.rootDir (.ofChars ['a', '.', 'b']) = some 0 ∧
        (fsStep s (.rm (.ofChars ['a', '.', 'b']))).isSome) := by decide +kernel
  obtain ⟨s₁, h₁, hP⟩ := (Option.any_eq_true _ _).mp hrun
  obtain ⟨hfat, hfind, h₂⟩ := of_decide_eq_true hP
  obtain ⟨s₂, h₂⟩ := Option.isSome_iff_exists.mp h₂
  have hroot : s₁.rootDir = update formatted.rootDir 0 _ :=
    (congrArg Volume.rootDir (fsStep_volume h₁).1).trans
      (Volume.create_rootDir_some (by exact newEntry_formatted))
  have hvol : s₂.volume = s₁.volume.remove 0 := by
    rw [(fsStep_volume h₂).1, effect]
    have hcurr : s₁.currDir = FAT_ROOT_REGION_START := (fsStep_volume h₁).2
    simp only [creates, removes, removed]
    rw [if_pos hcurr, hfind]
    rfl
  have hnone : ∀ i, ¬ InUse (s₂.volume.rootDir i) := by
    intro i hu
    rw [hvol, Volume.remove_rootDir] at hu
    by_cases hi : i = 0
    · rw [hi, Function.update_self] at hu
      exact not_used_removed hu.1
    · rw [Function.update_of_ne hi, FileSystem.volume_rootDir, hroot, Function.update_of_ne hi] at hu
      exact hu.1.1 rfl
  refine ⟨wellFormed_formatted, s₂, (Run.Reach.step _ .init trivial h₁).step _ trivial h₂,
    fun hv => ?_⟩
  have hfat₂ : s₂.volume.fat 2 = 0x0FFF := by rw [hvol, Volume.remove_fat, ← hfat]; rfl
  obtain ⟨l, hl⟩ := (hv.used 2 (by decide) (by rw [hfat₂]; decide)).mp (by rw [hfat₂]; decide)
  exact not_live hnone hl.1.1

end AdvancedOS
