import AdvancedOS.Fat.Codec

/-!
# The volume

What is stored, as opposed to the buffers that the functions work with, and what the commands do to
it.

* `Volume`: the drive, the boot sector, the table and the root directory;
* `Volume.create`, `Volume.remove`: what `fat12_create_file` and `fat12_rm` make of it;
* `BuffersOnly`: nothing but the buffers has changed;
* `onDrive`: the volume that `fat12_init` finds;
* `ends_fat12FindEntry`, `ends_fat12ReadFile`, `ends_fat12Cp`, `ends_fat12Rm`: the commands.
-/

namespace AdvancedOS

variable {s s' : Fs} {c : Word} {cs : List FatIdx} {n : ℕ} {E : Halt → Fs → Prop}
  {filename : CStr} {i : RootIdx}

/-- What is stored. -/
structure Volume where
  disk : Word → Sector
  bootsector : Sector
  fat : FatIdx → Word
  rootDir : RootIdx → FileEntry

/-- The volume of a file system. -/
@[simps -fullyApplied]
def FileSystem.volume (v : FileSystem) : Volume := ⟨v.disk, v.bootsector, v.fat, v.rootDir⟩

namespace Volume

/-- A file of `size` bytes is entered, with its name in two parts. -/
def create (size : ℤ) (tmpName ext : CStr) (v : Volume) : Volume :=
  let r := allocate (numClusters size) v.fat
  match newEntry v.rootDir with
  | none => { v with fat := r.1 }
  | some i =>
    { v with
      fat := r.1
      rootDir := Function.update v.rootDir i (enterFile (v.rootDir i) tmpName ext r.2 size) }

/-- The entry `i` of the root directory is marked. -/
@[simps -fullyApplied]
def remove (i : RootIdx) (v : Volume) : Volume :=
  { v with rootDir := Function.update v.rootDir i ((v.rootDir i).write 0 [0xE5]) }

@[simp] theorem create_disk (size : ℤ) (t x : CStr) (v : Volume) :
    (v.create size t x).disk = v.disk := by
  unfold create
  split <;> rfl

@[simp] theorem create_bootsector (size : ℤ) (t x : CStr) (v : Volume) :
    (v.create size t x).bootsector = v.bootsector := by
  unfold create
  split <;> rfl

@[simp] theorem create_fat (size : ℤ) (t x : CStr) (v : Volume) :
    (v.create size t x).fat = (allocate (numClusters size) v.fat).1 := by
  unfold create
  split <;> rfl

theorem create_rootDir_none {size : ℤ} {t x : CStr} {v : Volume} (h : newEntry v.rootDir = none) :
    (v.create size t x).rootDir = v.rootDir := by
  unfold create
  rw [h]

theorem create_rootDir_some {size : ℤ} {t x : CStr} {v : Volume}
    (h : newEntry v.rootDir = some i) : (v.create size t x).rootDir = Function.update v.rootDir i
      (enterFile (v.rootDir i) t x (allocate (numClusters size) v.fat).2 size) := by
  unfold create
  rw [h]

end Volume

/-- Of what outlasts a call only the volume has changed, to `v`. -/
structure Leaves (v : Volume) (s s' : Fs) : Prop where
  volume : s'.volume = v
  currDir : s'.currDir = s.currDir
  currPath : s'.currPath = s.currPath
  fileList : s'.fileList = s.fileList

/-- At most the buffers of the file system have changed. -/
abbrev BuffersOnly (s s' : Fs) : Prop := Leaves s.volume s s'

namespace BuffersOnly

theorem refl (s : Fs) : BuffersOnly s s := ⟨rfl, rfl, rfl, rfl⟩

theorem of_eq (h : s'.toFileSystem = s.toFileSystem) : BuffersOnly s s' := by
  constructor <;> rw [h]

theorem fat (h : BuffersOnly s s') : s'.fat = s.fat := congrArg Volume.fat h.volume

theorem rootDir (h : BuffersOnly s s') : s'.rootDir = s.rootDir := congrArg Volume.rootDir h.volume

theorem trans {v : Volume} {s'' : Fs} (h : BuffersOnly s s') (h' : Leaves v s' s'') :
    Leaves v s s'' :=
  ⟨h'.volume, h'.currDir.trans h.currDir, h'.currPath.trans h.currPath,
    h'.fileList.trans h.fileList⟩

end BuffersOnly

theorem Leaves.trans {v : Volume} {s'' : Fs} (h : Leaves v s s') (h' : BuffersOnly s' s'') :
    Leaves v s s'' :=
  ⟨h'.volume.trans h.volume, h'.currDir.trans h.currDir, h'.currPath.trans h.currPath,
    h'.fileList.trans h.fileList⟩

/-! ## The start -/

/-- The volume that `fat12_init` finds on a drive. -/
def onDrive (disk : Word → Sector) : Volume where
  disk := disk
  bootsector := Bytes.ofList (bytesOf [disk 0])
  fat := decodeFat (Bytes.ofList (bytesOf ((List.range FAT_PHYS_SIZE).map fun i =>
    disk (BitVec.ofNat 32 FAT_ENTRY_START + BitVec.ofNat 32 i))))
  rootDir := entriesOf (bytesOf ((List.range FAT_ROOT_SIZE).map fun i =>
    disk (BitVec.ofNat 32 FAT_ROOT_REGION_START + BitVec.ofNat 32 i)))

/-- **`fat12_init` reads the volume and starts in the root directory.** -/
theorem ends_fat12Init {Q : Unit → Fs → Prop}
    (hQ : ∀ s', s'.volume = onDrive s.disk → s'.currDir = FAT_ROOT_REGION_START →
      s'.currPath = rootPath → Q () s') : Ends fat12Init s Q E := by
  simp only [fat12Init, ends_bind, ends_changing]
  refine ends_readSectors _ _ fun s₁ h₁ => ends_readSectors _ _ fun s₂ h₂ => ?_
  refine ends_convertFat.mono (fun _ s₃ h₃ => ?_) fun _ _ h => h
  refine ends_readSectors _ _ fun s₄ h₄ => hQ _ ?_ rfl rfl
  have hdisk₂ : s₂.disk = s.disk := by
    rw [h₂, Fs.change_toFileSystem, h₁]
  have hdisk₃ : s₃.disk = s.disk := by
    rw [h₃, Fs.change_toFileSystem]
    exact hdisk₂
  have hphys : s₃.fat = decodeFat (Bytes.ofList (bytesOf ((List.range FAT_PHYS_SIZE).map fun i =>
      s.disk (BitVec.ofNat 32 FAT_ENTRY_START + BitVec.ofNat 32 i)))) := by
    rw [h₃, Fs.change_toFileSystem, Fs.change_toFileSystem, h₁]
  unfold FileSystem.volume onDrive
  simp only [Fs.change_toFileSystem, Volume.mk.injEq]
  refine ⟨?_, ?_, ?_, ?_⟩
  · rw [h₄, hdisk₃]
  · rw [h₄, h₃, Fs.change_toFileSystem, h₂, Fs.change_toFileSystem]
    rfl
  · rw [h₄, hphys]
  · rw [hdisk₃]

theorem exists_init (s₀ : Fs) : ∃ s, fat12Init s₀ = .ok () s ∧ s.volume = onDrive s₀.disk ∧
    s.currDir = FAT_ROOT_REGION_START ∧ s.currPath = rootPath := by
  obtain ⟨⟨⟩, s, h⟩ := exists_ok_iff.mpr (ends_fat12Init (s := s₀)
    (Q := fun _ s => s.volume = onDrive s₀.disk ∧ s.currDir = FAT_ROOT_REGION_START ∧
      s.currPath = rootPath) fun _ h₁ h₂ h₃ => ⟨h₁, h₂, h₃⟩)
  exact ⟨s, h⟩

/-! ## Looking for an entry -/

/-- The state after the directory at the cluster `i` has been loaded. -/
def Fs.loaded (i : FatIdx) (s : Fs) : Fs :=
  (s.readOut [i]).change fun v =>
    { v with subdir := entriesOf (List.ofFn (clusterSector s.disk i)) }

theorem buffersOnly_loaded (i : FatIdx) : BuffersOnly s (s.loaded i) := ⟨rfl, rfl, rfl, rfl⟩

theorem buffersOnly_readOut (cs : List FatIdx) : BuffersOnly s (s.readOut cs) :=
  ⟨rfl, rfl, rfl, rfl⟩

theorem ends_fat12FindEntry {folder : CStr} {Q : Option EntryPtr → Fs → Prop}
    (hroot : s.currDir = FAT_ROOT_REGION_START → Q ((findRoot s.rootDir folder).map .root) s)
    (hsub : s.currDir ≠ FAT_ROOT_REGION_START →
      ∀ i, FatChain s.fat (BitVec.ofNat 32 s.currDir) [i] →
        Q ((findSub (s.loaded i).subdir folder).map .sub) (s.loaded i))
    (hE : s.currDir ≠ FAT_ROOT_REGION_START → ∀ e s',
      (∀ i, ¬ FatChain s.fat (BitVec.ofNat 32 s.currDir) [i]) →
        s'.toFileSystem = s.toFileSystem → E e s') :
    Ends (fat12FindEntry folder) s Q E := by
  simp only [fat12FindEntry, ends_bind, ends_get, ends_ite, ends_pure]
  exact ⟨hroot, fun h => ends_readSubdir (fun i hi => hsub h i hi) (hE h)⟩

theorem ends_fat12ReadFile {Q : Option (List Sector × Word) → Fs → Prop}
    (hnone : findRoot s.rootDir filename = none → Q none s)
    (hsome : ∀ i, findRoot s.rootDir filename = some i → ∀ cs,
      FatChain s.fat ((s.rootDir i).startCluster.setWidth 32) cs →
        Q (some (cs.map (clusterSector s.disk), (s.rootDir i).fileLength)) (s.readOut cs))
    (hE : ∀ i, findRoot s.rootDir filename = some i → ∀ e s',
      follow s.fat ((s.rootDir i).startCluster.setWidth 32) = .error e →
        s'.toFileSystem = s.toFileSystem → E e s') :
    Ends (fat12ReadFile filename) s Q E := by
  simp only [fat12ReadFile, ends_bind, ends_get]
  cases h : findRoot s.rootDir filename with
  | none => exact (ends_pure _).mpr (hnone h)
  | some i =>
    simp only [ends_bind, ends_pure]
    exact ends_fat12ReadClusters (hsome i h) (hE i h)

/-! ## Copying and deleting -/

/-- The buffer of the drive is above the string at the address 0. -/
theorem bufferedMem_cstr (disk : Word → Sector) (cs : List FatIdx) (m : Mem) :
    (bufferedMem disk cs m).cstr 0 = m.cstr 0 := by
  induction cs generalizing m with
  | nil => rfl
  | cons i cs ih =>
    rw [bufferedMem, ih]
    unfold Mem.cstr
    refine congrArg CStr.ofList (List.map_congr_left fun j hj => ?_)
    have hj : j < 4096 := List.mem_range.mp hj
    unfold Mem.store
    rw [List.getElem?_eq_none]
    · rfl
    · rw [List.length_ofFn, BitVec.toNat_sub, BitVec.toNat_add, BitVec.toNat_ofNat]
      change 512 ≤ (2 ^ 32 - 4096 + (0 + j % 2 ^ 32) % 2 ^ 32) % 2 ^ 32
      omega

theorem extensionOf_readOut (name : CStr) (cs : List FatIdx) :
    extensionOf name (s.readOut cs) = extensionOf name s := by
  unfold extensionOf
  rw [Fs.readOut_mem, bufferedMem_cstr]

theorem ends_fat12CreateFile_leaves (addr : List Byte) (size : ℤ) (name : CStr) :
    Ends (fat12CreateFile addr size name) s
      (fun _ => Leaves (s.volume.create size (name.before 0x2E) (extensionOf name s)) s)
      fun _ _ => True := by
  rw [ends_fat12CreateFile]
  refine ⟨fun h => ⟨?_, rfl, rfl, rfl⟩, fun i h => ⟨fun _ => ⟨?_, rfl, rfl, rfl⟩, fun _ => trivial⟩⟩
  · unfold Volume.create
    rw [FileSystem.volume_rootDir, h]
    rfl
  · unfold Volume.create
    rw [FileSystem.volume_rootDir, h]
    rfl

theorem ends_fat12CreateFile_fits (addr : List Byte) (size : ℤ) (name : CStr) :
    Ends (fat12CreateFile addr size name) s
      (fun _ _ => (newEntry s.rootDir).isSome → NameFits name s) fun _ _ => True := by
  rw [ends_fat12CreateFile]
  refine ⟨fun h => ?_, fun i h => ⟨fun hfit _ => hfit, fun _ => trivial⟩⟩
  rw [h]
  exact fun hn => (Bool.false_ne_true hn).elim

theorem ends_fat12Cp (src dst : CStr) :
    Ends (fat12Cp src dst) s
      (fun b s' => (findRoot s.rootDir src = none → b = false ∧ s' = s) ∧
        ∀ i, findRoot s.rootDir src = some i → b = true ∧
          Leaves (s.volume.create (s.rootDir i).fileLength.toInt (dst.before 0x2E)
            (extensionOf dst s)) s s')
      fun _ _ => True := by
  simp only [fat12Cp, ends_bind]
  refine ends_fat12ReadFile ?_ ?_ fun _ _ _ _ _ _ => trivial
  · intro h
    rw [h]
    exact (ends_pure _).mpr
      ⟨fun _ => ⟨rfl, rfl⟩, fun i hi => (Option.some_ne_none i hi.symm).elim⟩
  · intro i hi cs _
    simp only [ends_ite, ends_bind, ends_pure, ends_outOfBounds, implies_true, and_true]
    intro _
    refine (ends_fat12CreateFile_leaves _ _ _).mono ?_ fun _ _ h => h
    intro _ s' hs'
    rw [extensionOf_readOut] at hs'
    rw [hi]
    refine ⟨fun h => (Option.some_ne_none i h).elim, fun j hj => ?_⟩
    cases hj
    exact ⟨trivial, (buffersOnly_readOut cs).trans hs'⟩

theorem delFatLoop_ends : Ends (delFatLoop n c) s
    (fun _ s' => (∃ cs, followLoop s.fat n c = .ok cs) ∧ s'.toFileSystem = s.toFileSystem)
    (fun e _ => followLoop s.fat n c = .error e) := by
  induction n generalizing c s with
  | zero => exact (ends_throw _).mpr rfl
  | succ n ih =>
    simp only [delFatLoop, ends_bind, ends_fat12NextSector]
    refine ⟨fun j hj => ?_, fun hj => by rw [followLoop, hj]⟩
    simp only [ends_fatEntry, hj, Option.some.injEq, forall_eq', reduceCtorEq, false_implies,
      and_true, ends_modify, ends_ite, ends_pure]
    rw [followLoop, hj]
    by_cases hs : Stops (s.fat j)
    · exact ⟨fun hgo => by simp [hs] at hgo, fun _ => ⟨⟨[j], if_pos hs⟩, rfl⟩⟩
    · refine ⟨fun _ => ?_, fun hstop => by simp [hs] at hstop⟩
      simp only [if_neg hs]
      have hrest := ih (s := s.setMem (s.mem.store (s.fat j) (List.replicate 4 0))) (c := s.fat j)
      refine hrest.mono ?_ fun e _ he => by rw [show followLoop s.fat n (s.fat j) = _ from he]; rfl
      rintro _ s' ⟨⟨cs, hcs⟩, hfs⟩
      exact ⟨⟨j :: cs, by rw [show followLoop s.fat n (s.fat j) = _ from hcs]; rfl⟩, hfs⟩

theorem ends_fat12DelFatEntry : Ends (fat12DelFatEntry c) s (fun _ => BuffersOnly s)
    fun _ _ => True := by
  simp only [fat12DelFatEntry, ends_bind]
  refine delFatLoop_ends.mono ?_ fun _ _ _ => trivial
  rintro - s₁ ⟨-, h₁⟩
  refine ends_fat12WriteBackFat.mono (fun _ s₂ h₂ => ?_) fun _ _ h => h
  have h : BuffersOnly s₁ s₂ := ⟨by rw [h₂]; rfl, by rw [h₂], by rw [h₂], by rw [h₂]⟩
  exact Leaves.trans (BuffersOnly.of_eq h₁) h

/-- The entry of the root directory that `fat12_rm` marks. -/
def removed (filename : CStr) (s : Fs) : Option RootIdx :=
  if s.currDir = FAT_ROOT_REGION_START then findRoot s.rootDir filename else none

theorem ends_fat12Rm : Ends (fat12Rm filename) s
    (fun _ => Leaves ((removed filename s).elim s.volume fun i => s.volume.remove i) s)
    fun _ _ => True := by
  simp only [fat12Rm, ends_bind]
  refine ends_fat12FindEntry ?_ ?_ fun _ _ _ _ _ => trivial
  · intro hroot
    rw [removed, if_pos hroot]
    cases h : findRoot s.rootDir filename with
    | none => exact (ends_pure _).mpr (BuffersOnly.refl s)
    | some i =>
      simp only [Option.map_some, ends_bind, ends_get, ends_changing, ends_pure]
      have hmark : Leaves (s.volume.remove i) s (s.change (·.setEntry (.root i)
        ((s.rootDir i).write 0 [0xE5]))) := ⟨rfl, rfl, rfl, rfl⟩
      exact ends_fat12DelFatEntry.mono (fun _ s' hs' => hmark.trans hs') fun _ _ h => h
  · intro hsub i _
    rw [removed, if_neg hsub]
    cases h : findSub (s.loaded i).subdir filename with
    | none => exact (ends_pure _).mpr (buffersOnly_loaded i)
    | some k =>
      simp only [Option.map_some, ends_bind, ends_get, ends_changing, ends_pure]
      have hmark : BuffersOnly s ((s.loaded i).change (·.setEntry (.sub k)
        (((s.loaded i).subdir k).write 0 [0xE5]))) := ⟨rfl, rfl, rfl, rfl⟩
      exact ends_fat12DelFatEntry.mono (fun _ s' hs' => hmark.trans hs') fun _ _ h => h

end AdvancedOS
