import AdvancedOS.Fat.RoundTrip
import AdvancedOS.Fat.Gone
import AdvancedOS.File.Open
import AdvancedOS.User.Load

/-!
# The buffers that files are read into

`fat12_read_clusters` is given no length: what it stores is as long as the chain.

* `StoresWithin`, `storesWithin_iff`: **reading stays within a buffer exactly if the chain fits**;
* `Buffer`, `Caller`, `Caller.reads`: the callers, and what they read into which buffer;
* `fits_findEntry`, …, `fits_exec`: in the model of the commands a caller that returns has read what
  fits;
* `reads_fit_iff`: **a caller stores nothing beyond its buffers exactly if the chains fit them**;
* `not_reads_fit`: a directory of two clusters.
-/

namespace AdvancedOS

variable {s s' : Fs} {c : Word} {cs : List FatIdx} {fat : FatIdx → Word} {n : ℕ}
  {name folder pname mode src dst : CStr} {i : FileIdx} {l : Loc} {E : Halt → Fs → Prop}

/-! ## Reading into a buffer -/

/-- Wherever a buffer of `n` bytes is, apart from the buffer of the drive, and whatever is in memory:
`fat12_read_clusters` returns and stores nothing outside these two. -/
def StoresWithin (s : Fs) (c : Word) (n : ℕ) : Prop :=
  ∀ buf m, Disjoint (span buf n) driveBuffer →
    ∃ k s', fat12ReadClustersTo buf c (s.setMem m) = .ok k s' ∧
      ∀ x, x ∉ span buf n → x ∉ driveBuffer → s'.mem x = m x

/-- The chain from `c` fits. -/
def ChainFits (fat : FatIdx → Word) (c : Word) (n : ℕ) : Prop :=
  ∃ cs, FatChain fat c cs ∧ cs.length * FAT_SECTOR_SIZE ≤ n

theorem storesWithin_of_fits (h : ChainFits s.fat c n) : StoresWithin s c n := by
  obtain ⟨cs, hcs, hle⟩ := h
  intro buf m hd
  have hsub : clusterSpan buf cs.length ⊆ span buf n := span_subset hle
  have hread := transferred_readInto (s := s.setMem m) (clusters_le hcs) (hd.mono_left hsub)
  exact ⟨_, _, fat12ReadClustersTo_eq (s := s.setMem m) hcs,
    fun x hx hbuf => hread.frame x (fun h => hx (hsub h)) hbuf⟩

theorem not_storesWithin (h : FatChain s.fat c cs) (hlt : n < cs.length * FAT_SECTOR_SIZE) :
    ¬ StoresWithin s c n := by
  intro hs
  have hlen := clusters_le h
  have hsub : span (0x2000 : Word) n ⊆ clusterSpan 0x2000 cs.length := span_subset hlt.le
  have hq : n / FAT_SECTOR_SIZE < cs.length := Nat.div_lt_of_lt_mul (Nat.mul_comm _ _ ▸ hlt)
  have hj := List.getElem?_eq_getElem hq
  set x := clusterSector s.disk cs[n / FAT_SECTOR_SIZE]
    ⟨n % FAT_SECTOR_SIZE, Nat.mod_lt _ (by decide)⟩ with hx
  -- the memory holds another byte there
  obtain ⟨k, s', hk, hframe⟩ := hs 0x2000 (fun _ => x + 1) ((disjoint_after h).mono_left hsub)
  have hread := transferred_readInto (s := s.setMem fun _ => x + 1) hlen (disjoint_after h)
  cases hk.symm.trans (fat12ReadClustersTo_eq (s := s.setMem fun _ => x + 1) h)
  have hoff : ((0x2000 : Word) + BitVec.ofNat 32 n - 0x2000).toNat = n :=
    toNat_sub_eq_iff (hlt.trans_le hlen) |>.mpr rfl
  have hbeyond : (0x2000 : Word) + BitVec.ofNat 32 n ∉ span 0x2000 n := fun hmem =>
    absurd (mem_span.mp hmem) (by rw [hoff]; exact lt_irrefl n)
  have hstored : (0x2000 : Word) + BitVec.ofNat 32 n ∈ clusterSpan 0x2000 cs.length :=
    mem_span.mpr (by rw [hoff]; exact hlt)
  have hbyte := hread.byte hj
  rw [hframe _ hbeyond (Set.disjoint_left.mp (disjoint_after h) hstored)] at hbyte
  have hne : x + 1 ≠ x := by bv_omega
  exact hne hbyte

theorem storesWithin_iff (hsize : n ≤ FAT_NUM_ENTRY * FAT_SECTOR_SIZE) :
    StoresWithin s c n ↔ ChainFits s.fat c n := by
  refine ⟨fun h => ?_, storesWithin_of_fits⟩
  obtain ⟨k, s', hk, -⟩ := h 0x2000 s.mem (disjoint_above hsize)
  obtain ⟨cs, hcs⟩ := (fat12ReadClustersTo_returns (s := s.setMem s.mem) 0x2000).mp ⟨k, s', hk⟩
  refine ⟨cs, hcs, not_lt.mp fun hlt => not_storesWithin (s := s) hcs hlt h⟩

/-! ## The callers -/

/-- The buffers of the callers. -/
inductive Buffer where
  /-- `subdir`. -/
  | subdir
  /-- `file_list[i].buffer`. -/
  | file (i : FileIdx)
  /-- `buf` of `fat12_cp`. -/
  | copy
  /-- `bin_img`. -/
  | image

/-- The number of bytes of a buffer. -/
def Buffer.size : Buffer → ℕ
  | subdir => FAT_NUM_DIR_ENTRY * 32
  | file _ => 1024
  | copy => 512 * 30
  | image => BIN_SIZE

/-- The calls that read clusters; `exec` is the part of `exec_user_prg` for one program. -/
inductive Caller where
  | findEntry (folder : CStr)
  | ls
  | cd (folder : CStr)
  | fopen (pname mode : CStr)
  | cp (src dst : CStr)
  | exec (name : CStr)

/-- The current directory is read, unless it is the root directory. -/
def dirRead (s : Fs) : List (Word × Buffer) :=
  if s.currDir = FAT_ROOT_REGION_START then [] else [(BitVec.ofNat 32 s.currDir, .subdir)]

/-- What the entry `fe`, if there is one, refers to is read. -/
def entryRead (fe : Option FileEntry) (b : Buffer) : List (Word × Buffer) :=
  fe.elim [] fun e => [(e.startCluster.setWidth 32, b)]

/-- What `fat12_find_entry` finds is read. -/
def foundRead (s : Fs) (name : CStr) (b : Buffer) : List (Word × Buffer) :=
  entryRead ((foundAt s name).map s.volume.entry) b

/-- What `fat12_read_file` finds is read. -/
def rootRead (s : Fs) (filename : CStr) (b : Buffer) : List (Word × Buffer) :=
  entryRead ((findRoot s.rootDir filename).map s.rootDir) b

/-- The calls of `fat12_read_clusters` with the buffers of the caller: from which cluster on, and
into which buffer. A `.com` file is read to its address, not into a buffer. -/
def Caller.reads (s : Fs) : Caller → List (Word × Buffer)
  | findEntry _ => dirRead s
  | ls => dirRead s
  | cd folder => dirRead s ++ foundRead s folder .subdir
  | fopen pname _ =>
    (unusedFile s.fileList).elim [] fun i => dirRead s ++ foundRead s pname (.file i)
  | cp src _ => rootRead s src .copy
  | exec name => if name.after 0x2E = some outExt then rootRead s name .image else []

/-- All chains that are read fit. -/
def Fit (s : Fs) (rs : List (Word × Buffer)) : Prop := ∀ r ∈ rs, ChainFits s.fat r.1 r.2.size

/-! ## The model of the commands -/

theorem chainFits_one : ChainFits fat c Buffer.subdir.size ↔ ∃ j, FatChain fat c [j] := by
  have hsize : Buffer.subdir.size = FAT_SECTOR_SIZE := rfl
  have hpos : 0 < FAT_SECTOR_SIZE := by decide
  constructor
  · rintro ⟨cs, hcs, hle⟩
    have hone : cs.length ≤ 1 := Nat.le_of_mul_le_mul_right (by rwa [Nat.one_mul]) hpos
    have hlen : cs.length = 1 := le_antisymm hone (List.length_pos_of_ne_nil hcs.ne_nil)
    obtain ⟨j, rfl⟩ := List.length_eq_one_iff.mp hlen
    exact ⟨j, hcs⟩
  · rintro ⟨j, hj⟩
    exact ⟨[j], hj, le_of_eq (Nat.one_mul _)⟩

theorem fit_dirRead : Fit s (dirRead s) ↔ Readable s := by
  unfold Fit dirRead Readable
  by_cases hroot : s.currDir = FAT_ROOT_REGION_START
  · simp [hroot]
  · simp [hroot, chainFits_one]

theorem fit_entryRead {fe : Option FileEntry} {b : Buffer} : Fit s (entryRead fe b) ↔
    ∀ e ∈ fe, ChainFits s.fat (e.startCluster.setWidth 32) b.size := by
  cases fe <;> simp [Fit, entryRead]

theorem fit_append {rs rs' : List (Word × Buffer)} :
    Fit s (rs ++ rs') ↔ Fit s rs ∧ Fit s rs' := List.forall_mem_append

theorem fits_findEntry {o : Option EntryPtr} (h : fat12FindEntry folder s = .ok o s') :
    Fit s ((Caller.findEntry folder).reads s) :=
  fit_dirRead.mpr (readable_of_find h)

theorem fits_ls (h : fat12Ls s = .ok () s') : Fit s (Caller.ls.reads s) := by
  refine fit_dirRead.mpr (not_not.mp fun hr => ?_)
  obtain ⟨hne, hno⟩ := not_or.mp hr
  have hend : Ends fat12Ls s (fun _ _ => False) fun _ _ => True := by
    simp only [fat12Ls, ends_bind, ends_get, if_neg hne]
    exact ends_readSubdir (fun j hj => (hno ⟨j, hj⟩).elim) fun _ _ _ _ => trivial
  exact hend.of_ok h

theorem fits_cd {b : Bool} (h : fat12Cd folder s = .ok b s') :
    Fit s ((Caller.cd folder).reads s) := by
  have hr : Readable s := readable_of_bind h
  refine fit_append.mpr ⟨fit_dirRead.mpr hr, fit_entryRead.mpr fun e he => ?_⟩
  obtain ⟨l, hl, rfl⟩ := Option.map_eq_some_iff.mp he
  have hend := ends_cd_found (E := fun _ _ => True) (P := fun _ _ => True) hr hl
    (fun s₁ h₁ => (keepsVolume_fat12SetDir _ _ s₁ h₁.volume).mono
      (fun _ _ hv => ⟨hv, trivial⟩) fun _ _ _ => trivial) fun _ _ _ => trivial
  exact chainFits_one.mpr (hend.of_ok h).2.1

theorem fits_fopen {o : Option FileIdx} (h : doFopen pname mode s = .ok o s') :
    Fit s ((Caller.fopen pname mode).reads s) := by
  simp only [Caller.reads]
  cases hi : unusedFile s.fileList with
  | none => exact fun r hr => absurd hr List.not_mem_nil
  | some i =>
    have hopen : Openable s pname mode := ((ends_fopen hi).of_ok h).1
    refine fit_append.mpr ⟨fit_dirRead.mpr hopen.readable, fit_entryRead.mpr fun e he => ?_⟩
    obtain ⟨l, hl, rfl⟩ := Option.map_eq_some_iff.mp he
    obtain ⟨cs, hcs, hlen⟩ := hopen.chain l hl
    exact ⟨cs, hcs, Nat.mul_le_mul_right FAT_SECTOR_SIZE hlen⟩

theorem fits_cp {b : Bool} (h : fat12Cp src dst s = .ok b s') :
    Fit s ((Caller.cp src dst).reads s) := by
  have hend : Ends (fat12Cp src dst) s (fun _ _ => Fit s ((Caller.cp src dst).reads s))
      fun _ _ => True := by
    simp only [fat12Cp, ends_bind]
    refine ends_fat12ReadFile (fun hnone => ?_) (fun i hi cs hcs => ?_) fun _ _ _ _ _ _ => trivial
    · refine (ends_pure _).mpr (fit_entryRead.mpr fun e he => ?_)
      rw [hnone] at he
      cases he
    · simp only [ends_ite, ends_outOfBounds, implies_true, and_true]
      intro hlen
      refine .of_forall (fun _ _ => fit_entryRead.mpr fun e he => ?_) fun _ _ => trivial
      rw [hi] at he
      obtain rfl := Option.some.inj he
      rw [List.length_map] at hlen
      exact ⟨cs, hcs, Nat.mul_le_mul_right FAT_SECTOR_SIZE hlen⟩
  exact hend.of_ok h

theorem fits_exec {s s' : Sys} {o : Option (List Sector)} (hc : s.k.currProc = none)
    (h : loadFile none name s = .ok o s') : Fit s.files ((Caller.exec name).reads s.files) := by
  obtain ⟨-, hnone, hsome⟩ := (ends_loadFile none name hc).of_ok h
  simp only [Caller.reads]
  split_ifs
  · refine fit_entryRead.mpr fun e he => ?_
    obtain ⟨i, hi, rfl⟩ := Option.map_eq_some_iff.mp he
    cases o with
    | none => cases (hnone rfl).symm.trans hi
    | some secs =>
      obtain ⟨cs, ⟨j, hj, hcs, hlen⟩, -⟩ := hsome secs rfl
      cases hj.symm.trans hi
      exact ⟨cs, hcs, Nat.mul_le_mul_right FAT_SECTOR_SIZE (hlen rfl)⟩
  · exact fun r hr => absurd hr List.not_mem_nil

/-! ## The result -/

/-- The size of `FILE`: 32 bytes of `name`, 4 of `mode`, `buffer`, and four words. -/
def FILE_SIZE : ℕ := 32 + 4 + 1024 + 4 * 4

/-- `file_list[i].buffer`, for the address of `file_list`. -/
def fileBuffer (fileList : Word) (i : FileIdx) : Word :=
  fileList + BitVec.ofNat 32 (i * FILE_SIZE + 36)

/-- What the caller reads stays within the buffers, and with that the rest of `file_list` as it is. -/
structure ReadsFit (k : Caller) (s : Fs) : Prop where
  within : ∀ r ∈ k.reads s, StoresWithin s r.1 r.2.size
  fileList : ∀ c i, (c, .file i) ∈ k.reads s → ∀ fileList m,
    Disjoint (span fileList (MAX_FILE_NUM * FILE_SIZE)) driveBuffer →
      ∃ n s', fat12ReadClustersTo (fileBuffer fileList i) c (s.setMem m) = .ok n s' ∧
        ∀ x ∈ span fileList (MAX_FILE_NUM * FILE_SIZE), x ∉ span (fileBuffer fileList i) 1024 →
          s'.mem x = m x

theorem Buffer.size_le : ∀ b : Buffer, b.size ≤ FAT_NUM_ENTRY * FAT_SECTOR_SIZE
  | subdir => by decide
  | file _ => show 1024 ≤ FAT_NUM_ENTRY * FAT_SECTOR_SIZE by decide
  | copy => by decide
  | image => by decide

theorem fileBuffer_subset (fileList : Word) (i : FileIdx) :
    span (fileBuffer fileList i) 1024 ⊆ span fileList (MAX_FILE_NUM * FILE_SIZE) := by
  have hi : (i : ℕ) < 10 := i.isLt
  have hsize : FILE_SIZE = 1076 := rfl
  have hnum : MAX_FILE_NUM = 10 := rfl
  refine (span_add_subset _).trans (span_subset ?_)
  simp only [hsize, hnum]
  omega

/-- **For every caller, in every state, whatever is on the drive: nothing is stored beyond the end of
a buffer, and the rest of `file_list` stays as it is, exactly if each chain that is read has no more
clusters than its buffer has room for.** -/
theorem reads_fit_iff (k : Caller) (s : Fs) :
    ReadsFit k s ↔ ∀ r ∈ k.reads s, ChainFits s.fat r.1 r.2.size := by
  constructor
  · intro h r hr
    exact (storesWithin_iff r.2.size_le).mp (h.within r hr)
  · intro h
    refine ⟨fun r hr => storesWithin_of_fits (h r hr), fun c i hi fileList m hd => ?_⟩
    obtain ⟨n, s', hn, hs'⟩ := storesWithin_of_fits (h _ hi) _ m
      (hd.mono_left (fileBuffer_subset fileList i))
    exact ⟨n, s', hn, fun x hx hout => hs' x hout (Set.disjoint_left.mp hd hx)⟩

/-! ## A directory of two clusters -/

/-- A table with a chain of the clusters 2 and 3. -/
def twoTable (c : FatIdx) : Word :=
  if c = 0 then 0xFF0 else if c = 2 then 3 else if c = 1 ∨ c = 3 then 0xFFF else 0

/-- A drive with a directory that has these clusters, and no entries. -/
def twoClusters : Fs :=
  { formatted with
    disk := withBoot (formatted.disk 0) <|
      driveOf twoTable (fun i => if i = 0 then entryA else fun _ => 0) fun _ => sectorOf fun _ _ => 0 }

namespace twoClusters

/-- The volume on this drive. -/
abbrev vol : Volume := onDrive twoClusters.disk

theorem fat_eq : vol.fat = twoTable :=
  onDrive_withBoot_fat.trans (onDrive_driveOf_fat fun c => by unfold twoTable; split_ifs <;> decide)

theorem bootsector_eq : vol.bootsector = formatted.disk 0 := onDrive_withBoot_bootsector

theorem rootDir_eq (i : RootIdx) : vol.rootDir i = if i = 0 then entryA else fun _ => 0 :=
  congrFun (onDrive_withBoot_rootDir.trans onDrive_driveOf_rootDir) i

theorem entry_root : vol.entry (.root 0) = entryA := rootDir_eq 0

theorem entry_sub {c : FatIdx} (hc : 2 ≤ (c : ℕ)) (k : SubIdx) :
    vol.entry (.sub c k) = fun _ => 0 :=
  (entry_withBoot c k).trans (@entry_driveOf _ _ (fun _ _ _ => 0) c hc k)

theorem chain : FatChain vol.fat 2 [2, 3] := by
  rw [fat_eq]
  exact .cons (fatIdx_ofNat 2) (by decide) (.single (fatIdx_ofNat 3) (by decide))

theorem single : SingleDirectory vol [2, 3] where
  media := by
    rw [fat_eq]
    decide
  inUse := by
    rw [rootDir_eq]
    decide
  directory := by
    rw [rootDir_eq]
    decide
  other i hi hu := by
    rw [rootDir_eq, if_neg hi] at hu
    exact hu.1.1 rfl
  chain := by
    rw [Volume.Chain, entry_root]
    exact chain
  links c hc k hu := by
    have h2 : 2 ≤ (c : ℕ) := by
      rcases List.mem_pair.mp hc with rfl | rfl <;> decide
    rw [entry_sub h2] at hu
    exact (hu.1.1 rfl).elim
  inside c hc := by
    rw [Volume.last, bootsector_eq]
    rcases List.mem_pair.mp hc with rfl | rfl <;> decide
  final c hc := by
    obtain rfl : 3 = c := Option.some.inj hc
    rw [fat_eq]
    decide
  used c h2 := by
    rw [fat_eq, List.mem_pair]
    by_cases hc : c = 2 ∨ c = 3
    · rcases hc with rfl | rfl <;> decide
    · obtain ⟨hc2, hc3⟩ := not_or.mp hc
      have h0 : c ≠ 0 := by rintro rfl; exact absurd h2 (by decide)
      have h1 : c ≠ 1 := by rintro rfl; exact absurd h2 (by decide)
      simp [twoTable, h0, h1, hc2, hc3]

end twoClusters

/-- The buffer for directories has one sector. -/
theorem not_reads_fit : ∃ s, fat12Init twoClusters = .ok () s ∧ WellFormed s.volume ∧
    ¬ ReadsFit (.cd (.ofChars ['a'])) s := by
  obtain ⟨s, hs, hv, hcurr, -⟩ := exists_init twoClusters
  refine ⟨s, hs, hv ▸ twoClusters.single.wellFormed, fun h => ?_⟩
  have hroot : s.rootDir = twoClusters.vol.rootDir := congrArg Volume.rootDir hv
  have hfat : s.fat = twoClusters.vol.fat := congrArg Volume.fat hv
  have hfind : findRoot s.rootDir (.ofChars ['a']) = some 0 := by
    apply findRoot_zero
    rw [hroot, twoClusters.rootDir_eq, if_pos rfl]
    decide +kernel
  have hfound : foundAt s (.ofChars ['a']) = some (.root 0) := by
    rw [foundAt, if_pos hcurr, hfind]
    rfl
  have hread : ((2 : Word), Buffer.subdir) ∈ (Caller.cd (.ofChars ['a'])).reads s := by
    refine List.mem_append_right _ ?_
    rw [foundRead, hfound, Option.map_some, hv, twoClusters.entry_root]
    have hstart : (2 : Word) = entryA.startCluster.setWidth 32 := by decide
    exact List.mem_singleton.mpr (congrArg (·, Buffer.subdir) hstart)
  exact not_storesWithin (hfat ▸ twoClusters.chain) (by decide) (h.within _ hread)

end AdvancedOS
