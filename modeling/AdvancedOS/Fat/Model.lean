import AdvancedOS.Lib.Ends
import AdvancedOS.Str.Code
import AdvancedOS.Task.Model

/-!
# The state of the file system

The variables of `fat12.h` and `sysfile.h`, and the drive.

* `FileEntry`, `FILE`: a directory entry as its 32 bytes, with its members, and a stream;
* `FileSystem`: the variables, together with the sectors of the drive, to which no command writes;
* `Fs`: the same with the memory and the interrupt flag, on which file system code works too;
* `FsKern`: file system code, which returns to its caller or never does (`Halt`).

The buffers that a file is read into are those of the callers: `fat12_read_clusters` returns the
sectors, and a caller whose buffer they do not fit is at fault.
-/

namespace AdvancedOS

def FAT_SECTOR_SIZE : ℕ := 512
def FAT_PHYS_SIZE : ℕ := 9
def FAT_ROOT_SIZE : ℕ := 14
def FAT_NUM_ROOT_ENTRY : ℕ := 224
def FAT_NUM_DIR_ENTRY : ℕ := 16
def FAT_NUM_ENTRY : ℕ := 3072
def FAT_BOOTSECTOR_START : ℕ := 0
def FAT_ENTRY_START : ℕ := 1
def FAT_ROOT_REGION_START : ℕ := 19
def FAT_DATA_REGION_START : ℕ := 33
def MAX_FILE_NUM : ℕ := 10
def TMP_USER_ADDR : Word := 0x1000

instance : NeZero FAT_NUM_ROOT_ENTRY := ⟨by decide⟩
instance : NeZero FAT_NUM_DIR_ENTRY := ⟨by decide⟩
instance : NeZero FAT_NUM_ENTRY := ⟨by decide⟩
instance : NeZero MAX_FILE_NUM := ⟨by decide⟩

/-- An index into `fat.entry`. -/
abbrev FatIdx := Fin FAT_NUM_ENTRY

/-- An index into `root_dir.entry`. -/
abbrev RootIdx := Fin FAT_NUM_ROOT_ENTRY

/-- An index into `subdir.entry`. -/
abbrev SubIdx := Fin FAT_NUM_DIR_ENTRY

/-- A `FILE *` that `do_fopen` has returned: an index into `file_list`. -/
abbrev FileIdx := Fin MAX_FILE_NUM

/-- A sector of the drive. -/
abbrev Sector := Bytes FAT_SECTOR_SIZE

/-- `struct FileEntry`, packed: the name at 0, the extension at 8, the attributes at 11. -/
abbrev FileEntry := Bytes 32

namespace FileEntry

/-- `attribute.label`. -/
def label (e : FileEntry) : Bool := (e.get 11).getLsbD 3

/-- `attribute.directory`. -/
def directory (e : FileEntry) : Bool := (e.get 11).getLsbD 4

def startCluster (e : FileEntry) : BitVec 16 := e.u16 26

def fileLength (e : FileEntry) : Word := e.u32 28

end FileEntry

/-- A pointer to a directory entry. -/
inductive EntryPtr where
  | root (i : RootIdx)
  | sub (i : SubIdx)
  deriving DecidableEq

/-- `struct _FILE`; `pos` is counted from the start of `buffer`. -/
structure FILE where
  name : CStr
  mode : CStr
  buffer : Bytes 1024
  pos : ℕ
  fileLength : Word
  startCluster : Word
  currentCluster : Word

/-- The variables of `fat12.h` and `sysfile.h`, and the sectors of the drive by number. -/
structure FileSystem where
  disk : Word → Sector
  bootsector : Sector
  physFat : Bytes (FAT_PHYS_SIZE * FAT_SECTOR_SIZE)
  fat : FatIdx → Word
  rootDir : RootIdx → FileEntry
  subdir : SubIdx → FileEntry
  currDir : ℕ
  currPath : CStr
  fileList : FileIdx → FILE

/-- The state of file system code. -/
structure Fs extends FileSystem where
  mem : Mem
  intFlag : Bool

/-- How code never returns to its caller. -/
inductive Halt where
  | fault (f : Fault)
  /-- A loop that does not end. -/
  | loops
  deriving DecidableEq

/-- File system code. -/
abbrev FsKern := EStateM Halt Fs

/-! ## Access to the variables -/

namespace FileSystem

/-- Update the entry `i` of `fat`. -/
@[simps -fullyApplied]
def setFat (i : FatIdx) (x : Word) (s : FileSystem) : FileSystem :=
  { s with fat := Function.update s.fat i x }

/-- Update the entry `i` of `root_dir`. -/
@[simps -fullyApplied]
def setRoot (i : RootIdx) (e : FileEntry) (s : FileSystem) : FileSystem :=
  { s with rootDir := Function.update s.rootDir i e }

/-- Update the entry `i` of `subdir`. -/
@[simps -fullyApplied]
def setSub (i : SubIdx) (e : FileEntry) (s : FileSystem) : FileSystem :=
  { s with subdir := Function.update s.subdir i e }

/-- Update the entry `i` of `file_list`. -/
@[simps -fullyApplied]
def setFile (i : FileIdx) (f : FILE) (s : FileSystem) : FileSystem :=
  { s with fileList := Function.update s.fileList i f }

/-- The entry that `p` points to. -/
def entryAt (s : FileSystem) : EntryPtr → FileEntry
  | .root i => s.rootDir i
  | .sub i => s.subdir i

/-- Update the entry that `p` points to. -/
def setEntry (p : EntryPtr) (e : FileEntry) (s : FileSystem) : FileSystem :=
  match p with
  | .root i => s.setRoot i e
  | .sub i => s.setSub i e

end FileSystem

namespace Fs

/-- Change the variables. -/
@[simps -fullyApplied toFileSystem mem intFlag]
def change (f : FileSystem → FileSystem) (s : Fs) : Fs := ⟨f s.toFileSystem, s.mem, s.intFlag⟩

@[simps -fullyApplied toFileSystem mem intFlag]
def setFlag (b : Bool) (s : Fs) : Fs := ⟨s.toFileSystem, s.mem, b⟩

@[simps -fullyApplied toFileSystem mem intFlag]
def setMem (m : Mem) (s : Fs) : Fs := ⟨s.toFileSystem, m, s.intFlag⟩

end Fs

/-- Change the variables. -/
def changing (f : FileSystem → FileSystem) : FsKern Unit := modify (·.change f)

/-- A buffer of a fixed size is written past its end, or an array indexed outside its bounds. -/
def outOfBounds {α : Type} : FsKern α := throw (.fault .bounds)

/-- `fat.entry[i]`. -/
def fatEntry (i : Word) : FsKern Word := do
  if h : i.toNat < FAT_NUM_ENTRY then return (← get).fat ⟨i.toNat, h⟩ else outOfBounds

namespace Fs

def enable : FsKern Unit := modify (·.setFlag true)

def disable : FsKern Unit := modify (·.setFlag false)

end Fs

/-! ## Memory -/

/-- Store bytes at the addresses from `a` on. -/
@[irreducible] def Mem.store (m : Mem) (a : Word) (l : List Byte) : Mem :=
  fun x => l[(x - a).toNat]?.getD (m x)

/-- The string at the address `a`; no buffer of the kernel takes one of 4096 bytes. -/
def Mem.cstr (m : Mem) (a : Word) : CStr :=
  .ofList ((List.range 4096).map fun i => m (a + BitVec.ofNat 32 i))

/-- The string that a `char *` points to; `NULL` points to the address 0. -/
def pointee : Option CStr → FsKern CStr
  | some s => pure s
  | none => return (← get).mem.cstr 0

end AdvancedOS
