import AdvancedOS.Cpu.Model
import Mathlib.Data.Fintype.Card
import Mathlib.Logic.Function.Basic
import Mathlib.Tactic.Simps.Basic

/-!
# Processes and the kernel state

The process table of `task.h`, the semaphore table of `semaphore.h` and the other variables that
the process code reads and writes, together with the history of the run.

* `Process`, `Semaphore`, `Kernel`: the kernel variables; a `process *` is an `Option Slot`, whose
  `none` is `NULL`;
* `Call`, `Event`, `FrameEvent`: the system calls and what is observed of a run; `Kernel.trace` and
  `Kernel.frames` list the events, newest first, and no function of the kernel reads them;
* `Kern`: kernel code, which returns to its caller or leaves for good (`Exit`).

User memory is the function `mem`. The kernel variables lie outside it: a write through a user
pointer is a write to `mem`. The kernel stack is as deep as a run needs it.
-/

namespace AdvancedOS

def MAX_PROCESS : ℕ := 20
def N_SEMAPHORE : ℕ := 100
def MAX_TICK : ℕ := 1
def PROC_SIZE : Word := 0x10000

instance : NeZero MAX_PROCESS := ⟨by decide⟩
instance : NeZero N_SEMAPHORE := ⟨by decide⟩

/-- A `process *` that is not `NULL`: an index into `proc_list`. -/
abbrev Slot := Fin MAX_PROCESS

/-- An index into `sem_list`. -/
abbrev SemId := Fin N_SEMAPHORE

/-- `enum PROC_STATUS`. -/
inductive Status where
  | new | ready | running | waiting | terminated
  deriving DecidableEq

/-- `struct process`. -/
structure Process where
  regImg : Regs := {}
  pid : Word := 0
  parent : Option Slot := none
  next : Option Slot := none
  status : Status := .new
  tick : ℕ := 0
  terminal : ℕ := 0
  deriving DecidableEq

/-- `struct Semaphore`. -/
structure Semaphore where
  val : ℤ := 0
  used : Bool := false
  head : Option Slot := none
  deriving DecidableEq

/-- The system calls of `int 0x80`, `int 0x81` and `int 0x82`, with their arguments. -/
inductive Call where
  | logo | busy
  | fork | wait | exit | getPid
  | getSem (val : ℤ) | semP (id : ℤ) | semV (id : ℤ) | freeSem (id : ℤ)
  | processReturn
  | threadCreate (tid func args : Word) | threadJoin (tid : Word) | threadSelf | threadExit
  | file (no : Word)
  | unknown
  deriving DecidableEq

/-- What is observed of the scheduling of a run. -/
inductive Event where
  /-- `p` makes a system call. -/
  | call (p : Slot) (c : Call)
  /-- Ring-3 code of `p` is entered. -/
  | goesOn (p : Slot)
  /-- `proc_pick` is called on a table with these statuses and returns `r`. -/
  | picked (t : Slot → Status) (r : Option Slot)
  /-- `do_sem_p(s)` finds no unit left and calls `do_wait` for `p`. -/
  | blocked (p : Slot) (s : SemId)
  /-- `wakeup` makes `p` ready. -/
  | woken (p : Slot)
  /-- The status of `p` is set to `PROC_TERMINATED`. -/
  | terminated (p : Slot)
  /-- `do_getsem(v)` returns `s`. -/
  | gotSem (s : SemId) (v : ℤ)
  deriving DecidableEq

/-- What is observed of the register images. -/
inductive FrameEvent where
  /-- An interrupt is taken. -/
  | trap (t : Trap)
  /-- `save_proc` stores its parameters `a` in the image of `p`, which becomes `r`. -/
  | saved (p : Slot) (a r : Regs)
  /-- `proc_create`, `do_fork` or `do_thread_create` gives the new entry `p` the image `r`. -/
  | created (p : Slot) (r : Regs)
  /-- `restart_proc` resumes `p` from the words `st`. -/
  | restarted (p : Slot) (st : Stack)

/-- User memory. -/
abbrev Mem := Word → BitVec 8

/-- The kernel variables. `processReturn` and `pthreadReturn` are the addresses at which
`user_process_return` and `user_pthread_return` are linked. -/
structure Kernel where
  procList : Slot → Process
  currProc : Option Slot
  currPid : Word
  semList : SemId → Semaphore
  pitTicks : Word
  /-- The interrupt flag of the processor. -/
  intFlag : Bool
  /-- `curr_terminal->num`. -/
  currTerminal : ℕ
  /-- The index of `tmp_terminal`. -/
  tmpTerminal : ℕ
  mem : Mem
  processReturn : Word
  pthreadReturn : Word
  trace : List Event
  frames : List FrameEvent

/-- What C leaves undefined. -/
inductive Fault where
  /-- A member of a structure is accessed through `NULL`. -/
  | null
  /-- An array is indexed outside its bounds. -/
  | bounds
  /-- Signed arithmetic overflows. -/
  | overflow
  deriving DecidableEq

/-- How kernel code leaves without returning to its caller. -/
inductive Exit where
  /-- `restart_proc` has loaded this register file. -/
  | resumed (c : Cpu)
  /-- `terminal_loop` is entered. -/
  | shell
  /-- `user_process_return` is called inside the kernel. -/
  | processReturn
  | fault (f : Fault)
  deriving DecidableEq

/-- Kernel code. -/
abbrev Kern := EStateM Exit Kernel

/-! ## Access to the variables -/

@[simps -fullyApplied]
def Kernel.emit (e : Event) (k : Kernel) : Kernel := { k with trace := e :: k.trace }

@[simps -fullyApplied]
def Kernel.record (e : FrameEvent) (k : Kernel) : Kernel :=
  { k with frames := e :: k.frames }

/-- Update the entry `i` of `proc_list`. -/
@[simps -fullyApplied]
def Kernel.setProc (i : Slot) (f : Process → Process) (k : Kernel) : Kernel :=
  { k with procList := Function.update k.procList i (f (k.procList i)) }

/-- Update the entry `s` of `sem_list`. -/
@[simps -fullyApplied]
def Kernel.setSem (s : SemId) (f : Semaphore → Semaphore) (k : Kernel) : Kernel :=
  { k with semList := Function.update k.semList s (f (k.semList s)) }

@[simps -fullyApplied]
def Kernel.setFlag (b : Bool) (k : Kernel) : Kernel := { k with intFlag := b }

@[simps -fullyApplied]
def Kernel.setCurr (p : Option Slot) (k : Kernel) : Kernel := { k with currProc := p }

def emit (e : Event) : Kern Unit := modify (·.emit e)

def record (e : FrameEvent) : Kern Unit := modify (·.record e)

def setProc (i : Slot) (f : Process → Process) : Kern Unit := modify (·.setProc i f)

def setSem (s : SemId) (f : Semaphore → Semaphore) : Kern Unit := modify (·.setSem s f)

/-- The entry `i` of `proc_list`. -/
def entry (i : Slot) : Kern Process := return (← get).procList i

/-- Dereference a `process *`. -/
def deref : Option Slot → Kern Slot
  | some i => pure i
  | none => throw (.fault .null)

/-- `curr_proc`, about to be dereferenced. -/
def curr : Kern Slot := do deref (← get).currProc

def setStatus (i : Slot) (st : Status) : Kern Unit := setProc i fun p => { p with status := st }

/-- The range of `int`. -/
def IsInt (x : ℤ) : Prop := -2 ^ 31 ≤ x ∧ x < 2 ^ 31

instance : DecidablePred IsInt := fun _ => inferInstanceAs (Decidable (_ ∧ _))

/-- The result of an `int` operation. -/
def cint (x : ℤ) : Kern ℤ := if IsInt x then pure x else throw (.fault .overflow)

def enable : Kern Unit := modify (·.setFlag true)

def disable : Kern Unit := modify (·.setFlag false)

/-! ## User memory -/

/-- Store a 32-bit word, low byte first. -/
def Mem.write (m : Mem) (a w : Word) : Mem := fun x =>
  if x = a then w.extractLsb' 0 8
  else if x = a + 1 then w.extractLsb' 8 8
  else if x = a + 2 then w.extractLsb' 16 8
  else if x = a + 3 then w.extractLsb' 24 8
  else m x

/-- `memcpy(dst, src, n)`, byte by byte from the low end. -/
def memcpy (m : Mem) (dst src : Word) : ℕ → Mem
  | 0 => m
  | n + 1 =>
    let m := memcpy m dst src n
    Function.update m (dst + BitVec.ofNat 32 n) (m (src + BitVec.ofNat 32 n))

/-! ## Initialisation -/

/-- `proc_init`. -/
def procInit (k : Kernel) : Kernel := { k with procList := fun _ => {} }

/-- `sem_init`. -/
def semInit (k : Kernel) : Kernel := { k with semList := fun _ => {} }

end AdvancedOS
