import AdvancedOS.Shell.Command
import AdvancedOS.Stdio.Code

/-!
# A round of `terminal_loop`

The round from the call of `getline` on, and the commands that it runs, with their strings and arrays
watched: a round goes wrong as soon as `NULL` is passed to `strcmp` or `strcpy` or something is stored
past the end of its array or in the memory of the kernel (`Trouble`). A function of the file system or
of `user.h` that is watched bears its name in the namespace `Shell`; once its strings have been dealt
with it goes on as the function itself.

* `Trouble`, `ShellKern`: how a round goes wrong or does not return;
* `onReads`: code that reads clusters;
* `strArg`, `strcpyTo`, `strcatTo`: the calls of `string.h` with a pointer and a buffer;
* `getline`: reading the characters that `getchar` returns;
* `Shell.fat12Cd`, …, `Shell.execUserPrg`: the commands;
* `terminalRound`.

What is printed is left out. The name and the extension of a directory entry are one buffer of 11
bytes up to the attributes.
-/

namespace AdvancedOS

open Stdio (lineRead sprintf)

/-- How a round goes wrong, or never returns for another reason. -/
inductive Trouble where
  /-- `NULL` is passed to `strcmp` or `strcpy`. -/
  | null
  /-- Something is stored past the end of its array, or a program over the kernel. -/
  | overrun
  | stop (s : Stop)
  deriving DecidableEq

/-- The code of the shell, with its strings watched. -/
abbrev ShellKern := EStateM Trouble Sys

namespace Shell

/-- Code of the shell that handles no string. -/
def onSys {α : Type} (x : SysKern α) : ShellKern α := onPart id (fun s _ => s) .stop x

/-- File system code that handles no string. -/
def onFiles {α : Type} (x : FsKern α) : ShellKern α := onSys (onFs x)

/-- Code that reads clusters. Those of a chain that runs in a circle go past the end of any array. -/
def onReads {α : Type} (x : SysKern α) : ShellKern α :=
  onPart id (fun s _ => s) (fun e => if e = .halt .loops then .overrun else .stop e) x

/-! ## Strings -/

/-- An argument of `strcmp`. -/
def strArg : Option CStr → ShellKern CStr
  | some s => pure s
  | none => throw .null

/-- `strcpy` to a buffer of `n` bytes. -/
def strcpyTo (n : ℕ) (src : Option CStr) : ShellKern CStr := do
  let s ← strArg src
  if s.length < n then return s else throw .overrun

/-- `strcat` to `dst` in a buffer of `n` bytes. -/
def strcatTo (n : ℕ) (dst src : CStr) : ShellKern CStr := strcpyTo n (some (strcat dst src))

/-! ## `getline` -/

/-- `getline`, with the characters that `getchar` returns: the line and the characters after it, or
`none` while it waits for another one. -/
def getline (typed : List Byte) : ShellKern (Option (CStr × List Byte)) :=
  match lineRead typed [] with
  | .ok o => return o.map fun (l, more) => (.ofList l, more)
  | .error _ => throw .overrun

/-! ## Commands of `fat12.h` -/

/-- `fat12_set_dir`: what is stored in `curr_path`. -/
def fat12SetDir (newDir : ℕ) (action : CStr) : ShellKern Unit := do
  let s ← get
  if s.fs.currDir = FAT_ROOT_REGION_START then
    let _ ← strcatTo 50 rootPath action
  else if action = .ofChars ['.'] then
    pure () -- do nothing
  else if action = .ofChars ['.', '.'] then
    let tmpPath ← strArg (strsep 0x2F (some (reverse s.fs.currPath))).2
    let _ ← strcpyTo 50 (some (reverse tmpPath))
  else
    let path ← strcatTo 50 s.fs.currPath rootPath
    let _ ← strcatTo 50 path action
  onFiles (AdvancedOS.fat12SetDir newDir action)

/-- `fat12_find_entry`. -/
def fat12FindEntry (folder : Option CStr) : ShellKern (Option EntryPtr) := do
  let s ← get
  if s.fs.currDir = FAT_ROOT_REGION_START then
    let folder ← strArg folder
    return (findRoot s.fs.rootDir folder).map .root
  else
    onReads (onFs (readSubdir (BitVec.ofNat 32 s.fs.currDir)))
    let folder ← strArg folder
    return (findSub (← get).fs.subdir folder).map .sub

/-- `fat12_ls`. -/
def fat12Ls : ShellKern Unit := do
  let s ← get
  if s.fs.currDir = FAT_ROOT_REGION_START then
    onFiles <| (List.finRange FAT_NUM_ROOT_ENTRY).forM fun i => do
      let _ ← fat12ShowFileEntry (s.fs.rootDir i)
  else
    onReads (onFs (readSubdir (BitVec.ofNat 32 s.fs.currDir)))
    let s ← get
    onFiles <| (List.finRange FAT_NUM_DIR_ENTRY).forM fun i => do
      let _ ← fat12ShowFileEntry (s.fs.subdir i)

/-- `fat12_cd`; what is found has been compared with `folder`, which is not `NULL` then. -/
def fat12Cd (folder : Option CStr) : ShellKern Bool := do
  match ← fat12FindEntry folder with
  | none => return false
  | some p =>
    let fe := (← get).fs.entryAt p
    fat12SetDir fe.startCluster.toNat (← strArg folder)
    onReads (onFs (readSubdir (fe.startCluster.setWidth 32)))
    return true

/-- `fat12_rm`. -/
def fat12Rm (filename : Option CStr) : ShellKern Bool := do
  match ← fat12FindEntry filename with
  | none => return false
  | some p =>
    let fe := (← get).fs.entryAt p
    onFiles do
      changing (·.setEntry p (fe.write 0 [0xE5]))
      fat12DelFatEntry (fe.startCluster.setWidth 32)
    return true

/-- `fat12_create_file`: what is stored in `tmp_name` and in the directory entry. -/
def fat12CreateFile (addr : List Byte) (size : ℤ) (name : Option CStr) : ShellKern Unit := do
  match newEntry (← get).fs.rootDir with
  | some _ =>
    let tok := strsep 0x2E (some (← strcpyTo 20 name))
    let _ ← strcpyTo 11 tok.1
    let _ ← strcpyTo 3 tok.2
  | none => pure ()
  -- a name that is missing is not looked at here
  onFiles (AdvancedOS.fat12CreateFile addr size (name.getD (.ofList [])))

/-- `fat12_cp`. -/
def fat12Cp (src dst : Option CStr) : ShellKern Bool := do
  match ← onReads (onFs (fat12ReadFile (← strArg src))) with
  | some (l, size) =>
    if l.length ≤ 30 then
      fat12CreateFile (bytesOf l) size.toInt dst
      return true
    else onFiles outOfBounds
  | none => return false

/-! ## `exec_user_prg` -/

variable (foot : Footprint)

/-- The program is read: `addr_exec` in the end, and where it has been loaded. -/
def readProgram (junk : Junk) (name ext : CStr) : ShellKern (Option (Word × Word × ℕ)) := do
  if ext = comExt then
    let addrExec := comAddr junk.addr name
    match ← onReads (loadFile (some addrExec) name) with
    | some l => return some (addrExec, addrExec, l.length * FAT_SECTOR_SIZE)
    | none => return none
  else if ext = outExt then
    match ← onReads (loadFile none name) with
    | some l =>
      let img : BinImg := .ofList (bytesOf l)
      onSys do
        let addrExec ← onFs (parseElf junk.header img outAddr)
        letIn
        return some (addrExec, outAddr, Elf.loadSize junk.header img)
    | none => return none
  else return none

/-- What is stored in `info_buf`. -/
def infoBuf (pid : Word) : ShellKern Unit :=
  match sprintf (.ofChars "Created user process %d!".toList) fun _ => ⟨pid, .ofList []⟩ with
  | .ok s => do let _ ← strcpyTo 30 (some s)
  | .error _ => throw .overrun

/-- The process for a program that has been read. -/
def startProgram (junk : Junk) (name : CStr) (addrExec base : Word) (size : ℕ) : ShellKern Unit := do
  -- what has been read, and the address that `proc_create` stores at the top of the area
  if foot.hit base size ∨ foot.hit (addrExec + PROC_SIZE - 4) 4 then throw .overrun
  else
    let pp ← onSys do
      let pp ← onKernel (procCreate USER_CS USER_DS addrExec junk.flags)
      modify (·.log ⟨name, pp, addrExec, base, size⟩)
      return pp
    infoBuf ((← get).k.procList pp).pid

/-- The body of the loop; `false` where it returns. -/
def loadProgram (junk : Junk) (name : CStr) : ShellKern Bool := do
  let buf ← strcpyTo 20 (some name)
  let ext ← strArg (strsep 0x2E (some buf)).2
  match ← readProgram junk name ext with
  | some (addrExec, base, size) =>
    startProgram foot junk name addrExec base size
    return true
  | none => return false

/-- The loop. -/
def execLoop (junk : ℕ → Junk) : ℕ → Option CStr → Option CStr → ShellKern Unit
  | 0, _, _ => throw (.stop (.halt .loops))
  | _ + 1, none, _ => onSys (onKernel scheduleProc)
  | n + 1, some name, rest => do
    if ← loadProgram foot (junk n) name then
      let t := strsep 0x20 rest
      execLoop junk n t.1 t.2

/-- `exec_user_prg`. -/
def execUserPrg (junk : ℕ → Junk) (nameList : Option CStr) : ShellKern Unit := do
  onSys letIn
  onSys (onKernel disable)
  let t := strsep 0x20 nameList
  execLoop foot junk (nameList.elim 0 CStr.length + 2) t.1 t.2

/-! ## The round -/

/-- `read_disk_test`, with the characters that are typed. -/
def readDiskTest (typed : List Byte) : ShellKern Unit := do
  match ← getline typed with
  | none => pure () -- `scanf` waits
  | some (line, _) =>
    let _ ← onFiles (readSectors (readInt line) 1)

/-- A command with what follows it; `false` where the loop is left. -/
def command (junk : ℕ → Junk) (typed : List Byte) (str : CStr)
    (rest : Option CStr) : ShellKern Bool := do
  if str = .ofChars "help".toList then pure ()
  else if str = .ofChars "exit".toList then return false
  else if str = .ofChars "clr".toList then pure ()
  else if str = .ofChars "ls".toList then fat12Ls
  else if str = .ofChars "cd".toList then let _ ← fat12Cd rest
  else if str = .ofChars "rm".toList then let _ ← fat12Rm rest
  else if str = .ofChars "write".toList then
    let buf ← strcpyTo 1000 (some testMessage)
    fat12CreateFile buf.toList buf.length (some (.ofChars "test.txt".toList))
  else if str = .ofChars "cp".toList then
    let t := strsep 0x20 rest
    let _ ← fat12Cp t.1 t.2
  else if str = .ofChars "tick".toList then pure ()
  else if str = .ofChars "read".toList then readDiskTest typed
  else if str = .ofChars "exec".toList then execUserPrg foot junk rest
  else pure () -- `command_not_found`
  return true

/-- The body of the loop of `terminal_loop` after the prompt: whether it goes on. It waits in
`getline` while no line has been typed. -/
def terminalRound (junk : ℕ → Junk) (typed : List Byte) : ShellKern Bool := do
  match ← getline typed with
  | none => return true
  | some (str, typed) =>
    let t := strsep 0x20 (some str)
    command foot junk typed (str.before 0x20) t.2

end Shell

end AdvancedOS
