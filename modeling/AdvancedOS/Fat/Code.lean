import AdvancedOS.Fat.Model

/-!
# The functions of `fat12.h` and `ide.h`

Reading the drive, the file allocation table, and the commands `ls`, `cd`, `rm` and `cp`. These write
nothing to the drive: their calls of `write_sectors` are commented out, and the functions that move
clusters in both directions are in `AdvancedOS.Fat.Transfer`. Messages and debugging output are left
out, and so is `waitdisk`.

A loop along the table gets as many rounds as the table has entries, and one more: a walk that is
longer has come back to an entry and does not end (`AdvancedOS.endless_iff`).
-/

namespace AdvancedOS

/-- The rounds that a loop along the table gets. -/
@[irreducible] def rounds : ℕ := FAT_NUM_ENTRY + 1

/-! ## Sectors -/

/-- The bytes of the sectors, one after the other. -/
@[irreducible] def bytesOf (l : List Sector) : List Byte := l.flatMap List.ofFn

/-- The directory entries in a sequence of bytes. -/
@[irreducible] def entriesOf {n : ℕ} (l : List Byte) (i : Fin n) : FileEntry :=
  Bytes.ofList (l.drop (32 * i))

/-- `readsect`: the sector that goes to the address `dst`. -/
def readsect (dst secno : Word) : FsKern Sector := do
  Fs.disable
  let s ← get
  modify (·.setMem (s.mem.store dst (List.ofFn (s.disk secno))))
  return s.disk secno

/-- `read_sectors`, with the buffer at `TMP_USER_ADDR`: what is at `addr` in the end. -/
def readSectors (startsec : Word) (cnt : ℕ) : FsKern (List Sector) :=
  (List.range cnt).mapM fun i =>
    readsect (TMP_USER_ADDR + BitVec.ofNat 32 (i * FAT_SECTOR_SIZE)) (startsec + BitVec.ofNat 32 i)

/-! ## The file allocation table -/

/-- `phys_fat.entry[i]`, as an `int`. -/
def physEntry (i : ℕ) : FsKern Word := do
  if h : i < FAT_PHYS_SIZE * FAT_SECTOR_SIZE then
    return ((← get).physFat ⟨i, h⟩).setWidth 32
  else outOfBounds

/-- Assign to `phys_fat.entry[i]`. -/
def setPhysEntry (i : ℕ) (x : Word) : FsKern Unit := do
  if h : i < FAT_PHYS_SIZE * FAT_SECTOR_SIZE then
    changing fun v => { v with physFat := Function.update v.physFat ⟨i, h⟩ (x.setWidth 8) }
  else outOfBounds

/-- Assign to `fat.entry[j]`. -/
def setFatEntry (j : ℕ) (x : Word) : FsKern Unit := do
  if h : j < FAT_NUM_ENTRY then changing (·.setFat ⟨j, h⟩ x) else outOfBounds

/-- The loop of `fat12_init` over the table, from the counters `i` and `j` on. -/
def convertLoop : ℕ → ℕ → ℕ → FsKern Unit
  | 0, _, _ => throw .loops
  | n + 1, i, j => do
    if i < 4608 then
      setFatEntry j (((← physEntry i) + (← physEntry (i + 1)) <<< 8) &&& 0x0FFF)
      setFatEntry (j + 1) (((← physEntry (i + 1)) + (← physEntry (i + 2)) <<< 8) >>> 4)
      convertLoop n (i + 3) (j + 2)

/-- The table in `fat12_init` is converted. -/
def convertFat : FsKern Unit := convertLoop rounds 0 0

/-- The loop of `fat12_write_back_fat`, from the counters `i` and `j` on. -/
def writeBackLoop : ℕ → ℕ → ℕ → FsKern Unit
  | 0, _, _ => throw .loops
  | n + 1, i, j => do
    if j < 3072 then
      setPhysEntry i (← fatEntry (BitVec.ofNat 32 j))
      setPhysEntry (i + 1)
        ((((← fatEntry (BitVec.ofNat 32 j)) >>> 8) &&& 0x0F) |||
          (((← fatEntry (BitVec.ofNat 32 (j + 1))) <<< 4) &&& 0xF0))
      setPhysEntry (i + 2) ((← fatEntry (BitVec.ofNat 32 (j + 1))) >>> 4)
      writeBackLoop n (i + 3) (j + 2)

/-- `fat12_write_back_fat`. -/
def fat12WriteBackFat : FsKern Unit := writeBackLoop rounds 0 0

/-- The path `/`. -/
def rootPath : CStr := .ofChars ['/']

/-- `fat12_init`. -/
def fat12Init : FsKern Unit := do
  let boot ← readSectors (BitVec.ofNat 32 FAT_BOOTSECTOR_START) 1
  changing fun v => { v with bootsector := Bytes.ofList (bytesOf boot) }
  let phys ← readSectors (BitVec.ofNat 32 FAT_ENTRY_START) FAT_PHYS_SIZE
  changing fun v => { v with physFat := Bytes.ofList (bytesOf phys) }
  convertFat
  let root ← readSectors (BitVec.ofNat 32 FAT_ROOT_REGION_START) FAT_ROOT_SIZE
  changing fun v => { v with rootDir := entriesOf (bytesOf root) }
  changing fun v => { v with currDir := FAT_ROOT_REGION_START, currPath := rootPath }

/-- `fat12_next_sector`: the entry of `actual`, and whether it is a cluster to go on with. -/
def fat12NextSector (actual : Word) : FsKern (Word × Bool) := do
  let next ← fatEntry actual
  return (next, !(next = 0 || 0x0FF0 ≤ next))

/-- The loop of `fat12_read_clusters`. -/
def readClustersLoop : ℕ → Word → FsKern (List Sector)
  | 0, _ => throw .loops
  | n + 1, clust => do
    let l ← readSectors (clust + BitVec.ofNat 32 FAT_DATA_REGION_START - 2) 1
    Fs.enable
    let (next, flag) ← fat12NextSector clust
    if flag then return l ++ (← readClustersLoop n next) else return l

/-- `fat12_read_clusters`: what is at `buf` in the end. -/
def fat12ReadClusters (cstart : Word) : FsKern (List Sector) :=
  readClustersLoop rounds cstart

/-- `fat12_read_clusters` into `subdir`, which takes one sector. -/
def readSubdir (cstart : Word) : FsKern Unit := do
  match ← fat12ReadClusters cstart with
  | [x] => changing fun v => { v with subdir := entriesOf (List.ofFn x) }
  | _ => outOfBounds

/-- The loop of `fat12_del_fat_entry`. -/
def delFatLoop : ℕ → Word → FsKern Unit
  | 0, _ => throw .loops
  | n + 1, clust => do
    let (newClust, flag) ← fat12NextSector clust
    -- the entry, not its address, is what `memset` takes for the address
    let a ← fatEntry clust
    modify fun s => s.setMem (s.mem.store a (List.replicate 4 0))
    if flag then delFatLoop n newClust

/-- `fat12_del_fat_entry`. -/
def fat12DelFatEntry (cstart : Word) : FsKern Unit := do
  delFatLoop rounds cstart
  fat12WriteBackFat

/-! ## Directory entries -/

/-- The first loop of `fat12_construct_file_name`. -/
def nameLoop (f : FileEntry) : ℕ → ℕ → Bytes 13 → Bytes 13
  | 0, _, name => name
  | n + 1, i, name =>
    if f.get i = 0x20 then name.write i [0] else nameLoop f n (i + 1) (name.write i [f.get i])

/-- The second loop of `fat12_construct_file_name`. -/
def extensionLoop (f : FileEntry) (k : ℕ) : ℕ → ℕ → Bytes 13 → Bytes 13
  | 0, _, name => name
  | n + 1, i, name =>
    if f.get (8 + i) = 0x20 then name.write (i + k) [0]
    else extensionLoop f k n (i + 1) (name.write (i + k) [f.get (8 + i)])

/-- `fat12_construct_file_name`. -/
@[irreducible] def fat12ConstructFileName (f : FileEntry) : CStr :=
  let name := nameLoop f 8 0 fun _ => 0
  let name :=
    if f.get 8 ≠ 0x20 then
      let name := name.write (name.cstr 0).length [0x2E, 0]
      extensionLoop f (name.cstr 0).length 3 0 name
    else name
  tolower ((name.write 12 [0]).cstr 0)

/-- The entry of the root directory that the search for `filename` stops at. -/
def findRoot (rootDir : RootIdx → FileEntry) (filename : CStr) : Option RootIdx :=
  (List.finRange FAT_NUM_ROOT_ENTRY).find? fun i => fat12ConstructFileName (rootDir i) = filename

/-- The entry of the loaded directory that the search for `filename` stops at. -/
def findSub (subdir : SubIdx → FileEntry) (filename : CStr) : Option SubIdx :=
  (List.finRange FAT_NUM_DIR_ENTRY).find? fun i => fat12ConstructFileName (subdir i) = filename

/-- `fat12_read_file`: the sectors that are read to `addr`, and the size. -/
def fat12ReadFile (filename : CStr) : FsKern (Option (List Sector × Word)) := do
  let s ← get
  match findRoot s.rootDir filename with
  | some i =>
    let l ← fat12ReadClusters ((s.rootDir i).startCluster.setWidth 32)
    return some (l, (s.rootDir i).fileLength)
  | none => return none

/-- The loop of `fat12_get_num_cluster`. -/
def numClusterLoop : ℕ → Word → FsKern ℕ
  | 0, _ => throw .loops
  | n + 1, cl => do
    let (next, flag) ← fat12NextSector cl
    if flag then return (← numClusterLoop n next) + 1 else return 1

/-- `fat12_get_num_cluster`. -/
def fat12GetNumCluster (start : Word) : FsKern ℕ := do
  if start = 0 then
    return ((← get).bootsector.u16 17).toNat * 32 / FAT_SECTOR_SIZE
  else numClusterLoop rounds start

/-- `fat12_show_file_entry`: whether the entry is shown. -/
def fat12ShowFileEntry (f : FileEntry) : FsKern Bool := do
  if !f.label ∧ f.get 0 ≠ 0 ∧ f.get 0 &&& 0xE5 ≠ 0xE5 then
    if f.directory then
      let _ ← fat12GetNumCluster (f.startCluster.setWidth 32)
    return true
  return false

/-! ## Commands -/

/-- Assign to `curr_path`. -/
def setPath (path : CStr) : FsKern Unit := do
  if path.length < 50 then changing fun v => { v with currPath := path } else outOfBounds

/-- `fat12_set_dir`. -/
def fat12SetDir (newDir : ℕ) (action : CStr) : FsKern Unit := do
  if (← get).currDir = FAT_ROOT_REGION_START then
    changing fun v => { v with currDir := newDir }
    setPath (strcat rootPath action)
  else
    let newDir := if newDir = 0 then FAT_ROOT_REGION_START else newDir
    changing fun v => { v with currDir := newDir }
    if action = .ofChars ['.'] then
      pure () -- do nothing
    else if action = .ofChars ['.', '.'] then
      let s ← get
      match (strsep 0x2F (some (reverse s.currPath))).2 with
      | some tmpPath => setPath (reverse tmpPath)
      | none => -- the string at the address 0 is reversed
        modify (·.setMem (s.mem.store 0 (reverse (s.mem.cstr 0)).toList))
        setPath (reverse (s.mem.cstr 0))
      if newDir = FAT_ROOT_REGION_START then
        setPath rootPath
    else
      setPath (strcat (strcat (← get).currPath rootPath) action)

/-- `fat12_find_entry`. -/
def fat12FindEntry (folder : CStr) : FsKern (Option EntryPtr) := do
  let s ← get
  if s.currDir = FAT_ROOT_REGION_START then
    return (findRoot s.rootDir folder).map .root
  else
    readSubdir (BitVec.ofNat 32 s.currDir)
    return (findSub (← get).subdir folder).map .sub

/-- `fat12_ls`. -/
def fat12Ls : FsKern Unit := do
  let s ← get
  if s.currDir = FAT_ROOT_REGION_START then
    (List.finRange FAT_NUM_ROOT_ENTRY).forM fun i => do
      let _ ← fat12ShowFileEntry (s.rootDir i)
  else
    readSubdir (BitVec.ofNat 32 s.currDir)
    let s ← get
    (List.finRange FAT_NUM_DIR_ENTRY).forM fun i => do
      let _ ← fat12ShowFileEntry (s.subdir i)

/-- `fat12_cd`. -/
def fat12Cd (folder : CStr) : FsKern Bool := do
  match ← fat12FindEntry folder with
  | none => return false
  | some p =>
    let fe := (← get).entryAt p
    fat12SetDir fe.startCluster.toNat folder
    readSubdir (fe.startCluster.setWidth 32)
    return true

/-- `fat12_rm`. -/
def fat12Rm (filename : CStr) : FsKern Bool := do
  match ← fat12FindEntry filename with
  | none => return false
  | some p =>
    let fe := (← get).entryAt p
    changing (·.setEntry p (fe.write 0 [0xE5]))
    fat12DelFatEntry (fe.startCluster.setWidth 32)
    return true

/-- The entry before `i` in the chain, if there is one, gets `i`. -/
def linkPrev (prevIndex : Option FatIdx) (i : FatIdx) (fat : FatIdx → Word) : FatIdx → Word :=
  match prevIndex with
  | some p => Function.update fat p (BitVec.ofNat 32 i)
  | none => fat -- `prevIndex` is `-1`

/-- The loop of `fat12_create_file` over the table: the table and `cstart` in the end. -/
def createLoop (numCluster : ℤ) :
    List FatIdx → ℕ → Option FatIdx → ℕ → (FatIdx → Word) → (FatIdx → Word) × ℕ
  | [], _, _, cstart, fat => (fat, cstart)
  | i :: is, cnt, prevIndex, cstart, fat =>
    if fat i = 0 then
      let cstart := if cnt = 0 then (i : ℕ) else cstart
      let fat := linkPrev prevIndex i fat
      let cnt := cnt + 1
      if cnt = numCluster then (Function.update fat i 0x0FFF, cstart)
      else createLoop numCluster is cnt (some i) cstart fat
    else createLoop numCluster is cnt prevIndex cstart fat

/-- `date_to_int`. -/
def dateToInt (year month day : ℕ) : ℕ := ((year - 1980) <<< 9) + (month <<< 5) + day

/-- `time_to_int`. -/
def timeToInt (hour minute second : ℕ) : ℕ := (hour <<< 11) + (minute <<< 5) + second / 2

/-- What `fat12_create_file` makes of a directory entry. -/
@[irreducible] def enterFile (e : FileEntry) (tmpName ext : CStr) (cstart : ℕ) (size : ℤ) :
    FileEntry :=
  let e := e.write 0 (tmpName.toList ++ [0])
  let e := e.fill (e.cstr 0).length 8 0x20
  let e := e.write 8 (ext.toList ++ [0])
  let e := e.fill (8 + (e.cstr 8).length) 11 0x20
  let e := e.write 11 [e.get 11 ||| 0x20] -- `attribute.archive`
  let e := e.write 26 (Bytes.le16 (BitVec.ofNat 16 cstart))
  let e := e.write 28 (Bytes.le32 (BitVec.ofInt 32 size))
  let e := e.write 24 (Bytes.le16 (BitVec.ofNat 16 (dateToInt 2019 6 23)))
  e.write 22 (Bytes.le16 (BitVec.ofNat 16 (timeToInt 0 0 0)))

/-- The entry of the root directory that `fat12_create_file` takes. -/
def newEntry (rootDir : RootIdx → FileEntry) : Option RootIdx :=
  (List.finRange FAT_NUM_ROOT_ENTRY).find? fun i => (rootDir i).get 0 = 0

/-- The number of clusters that a file of `size` bytes needs. -/
def numClusters (size : ℤ) : ℤ :=
  if size.tmod FAT_SECTOR_SIZE = 0 then size.tdiv FAT_SECTOR_SIZE
  else size.tdiv FAT_SECTOR_SIZE + 1

/-- The clusters from 2 on are looked through: the table in the end, and the first cluster. -/
@[irreducible] def allocate (numCluster : ℤ) (fat : FatIdx → Word) : (FatIdx → Word) × ℕ :=
  createLoop numCluster ((List.finRange FAT_NUM_ENTRY).drop 2) 0 none 0 fat

/-- `fat12_create_file`. The bytes at `addr` are not looked at. -/
def fat12CreateFile (_addr : List Byte) (size : ℤ) (name : CStr) : FsKern Unit := do
  let r := allocate (numClusters size) (← get).fat
  changing fun v => { v with fat := r.1 }
  let s ← get
  match newEntry s.rootDir with
  | none => pure ()
  | some i =>
    if name.length < 20 then
      let tok := strsep 0x2E (some name)
      let tmpName ← pointee tok.1
      let ext ← pointee tok.2
      -- the members up to the end of the entry are overwritten by a long extension
      if ext.length < 24 then
        changing (·.setRoot i (enterFile (s.rootDir i) tmpName ext r.2 size))
      else outOfBounds
    else outOfBounds

/-- `fat12_cp`. -/
def fat12Cp (src dst : CStr) : FsKern Bool := do
  match ← fat12ReadFile src with
  | some (l, size) =>
    if l.length ≤ 30 then
      fat12CreateFile (bytesOf l) size.toInt dst
      return true
    else outOfBounds
  | none => return false

end AdvancedOS
