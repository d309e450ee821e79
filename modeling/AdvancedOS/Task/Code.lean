import AdvancedOS.Lib.Cyclic
import AdvancedOS.Task.Model

/-!
# The functions of `task.h`

Process creation, the scheduler, `save_proc` and `proc_switch`, the timer handler, `do_fork`,
`wakeup`, `do_wait` and `do_exit`. The port writes of `interruptdone` and `tss_set_stack` concern
the hardware only and are left out; so is the debugging output.
-/

namespace AdvancedOS

def resetTime (pp : Slot) : Kern Unit := setProc pp fun p => { p with tick := MAX_TICK }

/-- `sys_get_pid`. -/
def sysGetPid : Kern Word := do
  match (← get).currProc with
  | none => return -1
  | some c => return (← entry c).pid

/-- The index that the loop of `proc_alloc` stops at. -/
def freeSlot (t : Slot → Process) : Option Slot :=
  (List.finRange MAX_PROCESS).find? fun i => (t i).status = .new

/-- `proc_alloc`. -/
def procAlloc : Kern (Option Slot) := do
  let k ← get
  match freeSlot k.procList with
  | some i =>
    setStatus i .ready
    modify fun k => { k with currPid := k.currPid + 1 }
    setProc i fun p => { p with pid := k.currPid + 1 }
    return some i
  | none => return none

/-- `get_current_terminal`. -/
def getCurrentTerminal : Kern ℕ := return (← get).currTerminal

/-- `proc_create`; `flag` is what `pushf` yields. -/
def procCreate (cs ds addr flag : Word) : Kern Slot := do
  disable
  let pp ← deref (← procAlloc)
  setProc pp fun p => { p with regImg := { p.regImg with
    cs := cs
    ds := ds, es := ds, fs := ds, gs := ds, ss := ds
    eflags := flag ||| 0x200
    eip := addr
    esp := addr + PROC_SIZE, ebp := addr + PROC_SIZE, userEsp := addr + PROC_SIZE } }
  resetTime pp
  let stack := (← entry pp).regImg.userEsp - 4
  modify fun k => { k with mem := k.mem.write stack k.processReturn }
  setProc pp fun p => { p with regImg := { p.regImg with userEsp := stack } }
  let ter ← getCurrentTerminal
  setProc pp fun p => { p with terminal := ter }
  record (.created pp (← entry pp).regImg)
  return pp

/-- The first loop of `proc_pick`: the running process. -/
def runningSlot (t : Slot → Status) : Option Slot :=
  (List.finRange MAX_PROCESS).find? fun i => t i = .running

/-- The second loop of `proc_pick`: it looks at `(i + start) % MAX_PROCESS` for `i = 0, 1, …`, where
`start` is `1 + curr_index`. -/
def readyFrom (t : Slot → Status) (start : ℕ) : Option Slot :=
  Cyclic.cyclicFind start fun i => t i = .ready

/-- `proc_pick` on a table of statuses. -/
def pick (t : Slot → Status) : Option Slot :=
  match runningSlot t with
  | some c => (readyFrom t (1 + c)).or (some c) -- no choice but the process still running
  | none => readyFrom t 0 -- `curr_index` is `-1`

/-- The statuses of the table. -/
def Kernel.statuses (k : Kernel) : Slot → Status := fun i => (k.procList i).status

/-- `proc_pick`. -/
def procPick : Kern (Option Slot) := do
  let k ← get
  emit (.picked k.statuses (pick k.statuses))
  return pick k.statuses

/-- The image that `save_proc` stores for its parameters `a`. -/
def savedImage (a : Regs) : Regs where
  eip := a.eip
  cs := a.cs
  eflags := a.eflags
  eax := a.eax
  ecx := a.ecx
  edx := a.edx
  ebx := a.ebx
  esp := a.esp
  ebp := a.ebp
  esi := a.esi
  edi := a.edi
  ds := a.ds &&& 0xFFFF
  es := a.es &&& 0xFFFF
  fs := a.fs &&& 0xFFFF
  gs := a.gs &&& 0xFFFF
  ss := a.ss
  userEsp := a.userEsp

/-- `save_proc`, with its parameter list as one record. -/
def saveProc (a : Regs) : Kern Unit := do
  match (← get).currProc with
  | none => return
  | some c =>
    setProc c fun p => { p with regImg := savedImage a }
    record (.saved c a (savedImage a))

/-- `set_tmp_terminal`. -/
def setTmpTerminal (i : ℕ) : Kern Unit := modify fun k => { k with tmpTerminal := i }

/-- `proc_switch`, up to and including the jump of `restart_proc` into the process. -/
def procSwitch (pp : Slot) : Kern Unit := do
  let k ← get
  if k.currPid ≠ 0 then
    match k.currProc with
    | none => pure () -- just created
    | some c =>
      if (k.procList c).status = .running then
        setStatus c .ready -- avoid PROC_WAITING
  -- else the first process: `clear_screen()`
  resetTime pp
  setStatus pp .running
  modify (·.setCurr (some pp))
  setTmpTerminal (← entry pp).terminal
  let st := (← entry pp).regImg.args
  record (.restarted pp st)
  throw (.resumed (restartProc {} st))

/-- `schedule_proc`. -/
def scheduleProc : Kern Unit := do
  match ← procPick with
  | none => return
  | some pp => procSwitch pp

/-- `pit_handler_main`. -/
def pitHandlerMain (a : Regs) : Kern Unit := do
  modify fun k => { k with pitTicks := k.pitTicks + 1 }
  let k ← get
  match k.currProc with
  | none =>
    if k.currPid ≠ 0 then -- directly schedule after creating
      scheduleProc
  | some c =>
    if 0 < (k.procList c).tick then
      setProc c fun p => { p with tick := p.tick - 1 }
    else
      saveProc a
      scheduleProc

/-- The image that `do_fork` and `do_thread_create` copy from that of the current process; the
stack registers move up by `off`. -/
def copiedImage (r : Regs) (off : Word) : Regs where
  eip := r.eip
  cs := r.cs
  eflags := r.eflags
  eax := r.eax
  ecx := r.ecx
  edx := r.edx
  ebx := r.ebx
  esp := r.esp
  ebp := r.ebp + off -- use different stack!
  esi := r.esi
  edi := r.edi
  ds := r.ds
  es := r.es
  fs := r.fs
  gs := r.gs
  ss := r.ss
  userEsp := r.userEsp + off

/-- The part that `do_fork` and `do_thread_create` share: fill the new entry `child` with a copy of
the current process and copy its stack. -/
def copyProc (child : Slot) : Kern Unit := do
  let c ← curr
  let r := (← entry c).regImg
  let off := (← entry child).pid * 0x100
  setProc child fun p => { p with regImg := copiedImage r off }
  modify fun k => { k with
    mem := memcpy k.mem (r.userEsp + off) r.userEsp ((r.ebp - r.userEsp) * 2).toNat }
  setProc child fun p => { p with regImg := { p.regImg with eax := 0 } }
  setProc child fun p => { p with parent := some c }
  setStatus child .ready
  resetTime child

/-- `do_fork`. -/
def doFork : Kern Word := do
  disable
  match ← procAlloc with
  | none =>
    enable
    return -1 -- fail to create child process
  | some child =>
    copyProc child
    record (.created child (← entry child).regImg)
    return (← entry child).pid

/-- The entry that the loop of `wakeup` stops at. -/
def waitingSlot (t : Slot → Process) (pid : BitVec 8) : Option Slot :=
  (List.finRange MAX_PROCESS).find? fun i =>
    (t i).pid = pid.setWidth 32 ∧ (t i).status = .waiting

/-- `wakeup`. -/
def wakeup (pid : BitVec 8) : Kern Unit := do
  disable
  match waitingSlot (← get).procList pid with
  | some pp =>
    setStatus pp .ready
    emit (.woken pp)
    scheduleProc
    enable
  | none => enable

/-- The body of `do_wait` and of `do_thread_join`. -/
def block : Kern Unit := do
  disable
  setStatus (← curr) .waiting
  scheduleProc
  enable

/-- `do_wait`. -/
def doWait : Kern Unit := block

/-- The body of `do_exit`, with which `do_thread_exit` begins. -/
def terminate : Kern Unit := do
  disable
  let c ← curr
  setStatus c .terminated
  emit (.terminated c)
  match (← entry c).parent with
  | some q => wakeup ((← entry q).pid.setWidth 8)
  | none => pure ()
  enable

/-- `do_exit`. -/
def doExit : Kern Unit := terminate

end AdvancedOS
