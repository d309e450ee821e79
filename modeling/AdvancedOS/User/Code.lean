import AdvancedOS.User.Elf

/-!
# The functions of `user.h`

`exec_user_prg` reads one program after the other, creates a process for each, and then calls
`schedule_proc`. Reading goes through `fat12_read_file` and `fat12_read_clusters`, which are repeated
here with the points at which interrupts are let in: after every `enable()`, and after `parse_elf`.
Between one of these points and the next `disable()` nothing is written that the timer handler
reads. The other calls are made with the flag off.

`Junk` is what the variables hold that are read without having been written. A cluster goes to the
buffer of the drive and from there to its destination.
-/

namespace AdvancedOS

def ADDR_USER_START : Word := 0x20000

/-- Where the kernel itself is in memory: the addresses of its code and its variables, and how far its
stack reaches down. -/
structure Footprint where
  static : Word → Bool
  depth : ℕ

/-- The boot loader starts the stack of the kernel below this address. -/
def STACK_TOP : Word := 0x90000

namespace Footprint

variable (foot : Footprint)

/-- The address belongs to the kernel. -/
def owns (x : Word) : Bool := foot.static x || (STACK_TOP - 1 - x).toNat < foot.depth

/-- One of the `n` bytes from `a` on belongs to the kernel. -/
def hit (a : Word) (n : ℕ) : Bool := (List.range n).any fun i => foot.owns (a + BitVec.ofNat 32 i)

end Footprint

/-- What is on the stack where variables are not initialised, and what `pushf` yields. -/
structure Junk where
  /-- `addr_exec`. -/
  addr : Word
  /-- `ph`. -/
  header : Bytes 32
  flags : Word

/-! ## Reading a program -/

/-- The `i`-th cluster is copied to its place after the address, or in `bin_img`. -/
def storeSector (dst : Option Word) (i : ℕ) (l : List Sector) : SysKern Unit :=
  match dst with
  | some a => onFs <| modify fun s =>
      s.setMem (s.mem.store (a + BitVec.ofNat 32 (i * FAT_SECTOR_SIZE)) (bytesOf l))
  | none => if i < 30 then pure () else onFs outOfBounds

/-- The loop of `fat12_read_clusters`. -/
def loadClustersLoop (dst : Option Word) : ℕ → ℕ → Word → SysKern (List Sector)
  | 0, _, _ => throw (.halt .loops)
  | n + 1, i, clust => do
    let l ← onFs (readSectors (clust + BitVec.ofNat 32 FAT_DATA_REGION_START - 2) 1)
    storeSector dst i l
    onFs Fs.enable
    letIn
    let (next, flag) ← onFs (fat12NextSector clust)
    if flag then return l ++ (← loadClustersLoop dst n (i + 1) next) else return l

/-- `fat12_read_file`: the sectors that are read. -/
def loadFile (dst : Option Word) (filename : CStr) : SysKern (Option (List Sector)) := do
  let s ← get
  match findRoot s.fs.rootDir filename with
  | some i =>
    let l ← loadClustersLoop dst rounds 0 ((s.fs.rootDir i).startCluster.setWidth 32)
    return some l
  | none => return none

/-! ## `exec_user_prg` -/

def comExt : CStr := .ofChars ['c', 'o', 'm']

def outExt : CStr := .ofChars ['o', 'u', 't']

/-- `prg1.com` to `prg4.com`. -/
def prgName (n : Char) : CStr := .ofChars ['p', 'r', 'g', n, '.', 'c', 'o', 'm']

/-- The load address of a `.com` file. -/
def comAddr (junk : Word) (name : CStr) : Word :=
  if name = prgName '1' then 0x20000
  else if name = prgName '2' then 0x30000
  else if name = prgName '3' then 0x40000
  else if name = prgName '4' then 0x50000
  else junk

/-- The load address of an `.out` file. -/
def outAddr : Word := ADDR_USER_START + 6 * PROC_SIZE

/-- The program is read: `addr_exec` in the end, and where it has been loaded. -/
def readProgram (junk : Junk) (name ext : CStr) : SysKern (Option (Word × Word × ℕ)) := do
  if ext = comExt then
    let addrExec := comAddr junk.addr name
    match ← loadFile (some addrExec) name with
    | some l => return some (addrExec, addrExec, l.length * FAT_SECTOR_SIZE)
    | none => return none
  else if ext = outExt then
    match ← loadFile none name with
    | some l =>
      let img : BinImg := .ofList (bytesOf l)
      let addrExec ← onFs (parseElf junk.header img outAddr)
      letIn
      return some (addrExec, outAddr, Elf.loadSize junk.header img)
    | none => return none
  else return none

/-- The body of the loop of `exec_user_prg`; `false` where it returns. -/
def loadProgram (junk : Junk) (name : CStr) : SysKern Bool := do
  if name.length < 20 then
    let ext ← onFs (pointee (strsep 0x2E (some name)).2)
    match ← readProgram junk name ext with
    | some (addrExec, base, size) =>
      let pp ← onKernel (procCreate USER_CS USER_DS addrExec junk.flags)
      modify (·.log ⟨name, pp, addrExec, base, size⟩)
      return true
    | none => return false
  else onFs outOfBounds

/-- The loop of `exec_user_prg`. -/
def execLoop (junk : ℕ → Junk) : ℕ → Option CStr → Option CStr → SysKern Unit
  | 0, _, _ => throw (.halt .loops)
  | _ + 1, none, _ => onKernel scheduleProc
  | n + 1, some name, rest => do
    if ← loadProgram (junk n) name then
      let t := strsep 0x20 rest
      execLoop junk n t.1 t.2

/-- `exec_user_prg`. -/
def execUserPrg (junk : ℕ → Junk) (nameList : Option CStr) : SysKern Unit := do
  letIn
  onKernel disable
  let t := strsep 0x20 nameList
  execLoop junk (nameList.elim 0 CStr.length + 2) t.1 t.2

end AdvancedOS
