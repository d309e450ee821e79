import AdvancedOS.Fat.Code

/-!
# The functions of `sysfile.h`

Streams on the slots of `file_list`. A slot is free when its mode is `u`. The calls of the file
system that change the volume or a stream are the labels `FsOp`, and `fsStep` is the state after a
call that returns. `do_fread` and `do_fgets` only copy out of the buffer and are none of them.
-/

namespace AdvancedOS

/-- The mode of a free slot. -/
def unused : CStr := .ofChars ['u']

/-- The mode `w`. -/
def modeW : CStr := .ofChars ['w']

/-- The mode `r`. -/
def modeR : CStr := .ofChars ['r']

/-- What `file_init` makes of a slot. -/
def emptyFile : FILE where
  name := .ofList []
  mode := unused
  buffer := fun _ => 0
  pos := 0
  fileLength := 0
  startCluster := 0
  currentCluster := 0

/-- `file_init`. -/
def fileInit : FsKern Unit := changing fun v => { v with fileList := fun _ => emptyFile }

/-- The slot that `do_fopen` takes. -/
def unusedFile (fileList : FileIdx → FILE) : Option FileIdx :=
  (List.finRange MAX_FILE_NUM).find? fun i => (fileList i).mode = unused

/-- Change the stream `fp`. -/
def changeFile (fp : FileIdx) (f : FILE → FILE) : FsKern Unit :=
  changing fun v => v.setFile fp (f (v.fileList fp))

/-- `strcpy(file->mode, mode)`. -/
def setMode (fp : FileIdx) (mode : CStr) : FsKern Unit := do
  if mode.length < 4 then changeFile fp fun f => { f with mode := mode } else outOfBounds

/-- `do_fopen` when there is no such file. -/
def openMissing (file : FileIdx) (mode : CStr) : FsKern (Option FileIdx) := do
  if mode = modeW then
    setMode file mode
    return some file
  else if mode = modeR then
    return none
  else throw (.fault .null)

/-- `do_fopen` when the file exists. -/
def openExisting (file : FileIdx) (mode : CStr) (fe : FileEntry) : FsKern (Option FileIdx) := do
  changeFile file fun f =>
    { f with
      fileLength := fe.fileLength
      startCluster := fe.startCluster.setWidth 32
      currentCluster := fe.startCluster.setWidth 32 }
  setMode file mode
  let l ← fat12ReadClusters (fe.startCluster.setWidth 32)
  if l.length ≤ 2 then
    changeFile file fun f => { f with buffer := f.buffer.write 0 (bytesOf l) }
    return some file
  else outOfBounds

/-- `do_fopen`. -/
def doFopen (pname mode : CStr) : FsKern (Option FileIdx) := do
  match unusedFile (← get).fileList with
  | none => return none
  | some file =>
    if pname.length < 32 then
      changeFile file fun f => { f with name := pname }
      match ← fat12FindEntry pname with
      | none => openMissing file mode
      | some p => openExisting file mode ((← get).entryAt p)
    else outOfBounds

/-- `do_fclose`. -/
def doFclose (fp : FileIdx) : FsKern Unit := do
  let f := (← get).fileList fp
  if f.mode = modeW then
    fat12CreateFile (List.ofFn f.buffer) f.pos f.name
  setMode fp unused
  Fs.enable

/-- The bytes `l` go to the position of the stream, which moves by `n`. -/
def put (fp : FileIdx) (l : List Byte) (n : ℕ) : FsKern Unit := do
  if ((← get).fileList fp).pos + l.length ≤ 1024 then
    changeFile fp fun f => { f with buffer := f.buffer.write f.pos l, pos := f.pos + n }
  else outOfBounds

/-- `do_fwrite`, with the bytes that `memcpy` reads from the address `buf` on. -/
def doFwrite (buf : ℕ → Byte) (size count : Word) (fp : FileIdx) : FsKern Word := do
  if ((← get).fileList fp).mode ≠ modeW then return 0
  put fp ((List.range (size * count).toNat).map buf) (size * count).toNat
  return count

/-- `memcpy(dst, fp->buffer, n)`, with the bytes that it copies. -/
def copyOut (dst : Word) (n : ℕ) (fp : FileIdx) : FsKern (List Byte) := do
  if n ≤ 1024 then
    let l := (List.ofFn ((← get).fileList fp).buffer).take n
    modify fun s => s.setMem (s.mem.store dst l)
    return l
  else outOfBounds

/-- `do_fread`. -/
def doFread (buf size count : Word) (fp : FileIdx) : FsKern Word := do
  discard (copyOut buf (size * count).toNat fp)
  return count

/-- `do_fgets`. -/
def doFgets (str count : Word) (fp : FileIdx) : FsKern Word := do
  discard (copyOut str count.toNat fp)
  return str

/-- `do_fputs`, with the characters that `memcpy` reads. `again` is what `strlen` counts after the
copy, which may have gone to the string itself. -/
def doFputs (str : CStr) (again : ℕ) (fp : FileIdx) : FsKern Word := do
  if ((← get).fileList fp).mode ≠ modeW then return 0
  put fp str.toList again
  return 1

/-! ## The calls as steps -/

/-- The calls that change the volume or a stream. -/
inductive FsOp where
  | create (addr : List Byte) (size : ℤ) (name : CStr)
  | cp (src dst : CStr)
  | rm (filename : CStr)
  | fopen (pname mode : CStr)
  | fwrite (buf : ℕ → Byte) (size count : Word) (fp : FileIdx)
  | fputs (str : CStr) (again : ℕ) (fp : FileIdx)
  | fclose (fp : FileIdx)

/-- The code of a call. -/
def FsOp.code : FsOp → FsKern Unit
  | .create addr size name => fat12CreateFile addr size name
  | .cp src dst => discard (fat12Cp src dst)
  | .rm filename => discard (fat12Rm filename)
  | .fopen pname mode => discard (doFopen pname mode)
  | .fwrite buf size count fp => discard (doFwrite buf size count fp)
  | .fputs str again fp => discard (doFputs str again fp)
  | .fclose fp => doFclose fp

/-- The state after a call that returns. -/
def fsStep (s : Fs) (op : FsOp) : Option Fs :=
  match op.code s with
  | .ok _ s' => some s'
  | .error _ _ => none

/-- The first bytes of the table on a formatted drive. -/
def mediaBytes (i : ℕ) : Byte := if i = 0 then 0xF0 else if i = 1 ∨ i = 2 then 0xFF else 0

/-- A formatted drive of 2880 sectors without files, after `fat12_init` and `file_init`. -/
def formatted : Fs where
  disk n i :=
    if n = 0 then Bytes.write 19 (Bytes.le16 2880) (fun _ => 0) i
    else if n = 1 ∨ n = 10 then mediaBytes i else 0
  bootsector := Bytes.write 19 (Bytes.le16 2880) fun _ => 0
  physFat := fun i => mediaBytes i
  fat := fun i => if i = 0 then 0xFF0 else if i = 1 then 0xFFF else 0
  rootDir := fun _ _ => 0
  subdir := fun _ _ => 0
  currDir := FAT_ROOT_REGION_START
  currPath := rootPath
  fileList := fun _ => emptyFile
  mem := fun _ => 0
  intFlag := true

theorem findRoot_formatted {name : CStr} (h : fat12ConstructFileName (fun _ => 0) ≠ name) :
    findRoot formatted.rootDir name = none :=
  List.find?_eq_none.mpr fun _ _ he => h (of_decide_eq_true he)

/-- A file is written and closed. -/
def oneFile : List FsOp :=
  [.fopen (.ofChars ['a', '.', 'b']) modeW, .fputs (.ofChars ['x']) 1 0, .fclose 0]

end AdvancedOS
