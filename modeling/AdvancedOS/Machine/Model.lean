import AdvancedOS.Syscall.Code
import AdvancedOS.Lib.Run

/-!
# The machine

Where the processor is, and what may happen next. Ring-3 code is arbitrary: it may make any system
call with any registers at any time. The interrupts arrive whenever the interrupt flag is set: in
ring-3 code, in the shell, and in the tail of a handler that has called `enable()`.

* `Mode`, `Machine`, `Label`, `step`;
* `boot`: the state that `initialize` leaves.
-/

namespace AdvancedOS

/-- What the tail of a handler still has to do. -/
inductive Tail where
  /-- Return to ring 3. -/
  | iret
  /-- Call `user_process_return` for a thread that has exited. -/
  | processReturn
  deriving DecidableEq

/-- Where the processor is. -/
inductive Mode where
  /-- In ring-3 code of `curr_proc`. -/
  | user
  /-- In `terminal_loop` or a command that it runs. -/
  | shell
  /-- In the tail of a handler, with interrupts on. -/
  | tail (t : Tail)
  /-- In kernel code that `restart_proc` entered from a ring-0 image, on a stack that is not the
  one it was interrupted on. -/
  | lost
  | fault (f : Fault)
  deriving DecidableEq

structure Machine where
  mode : Mode
  k : Kernel

/-- What happens next. -/
inductive Label where
  | int80 (t : Trap)
  | int81 (t : Trap)
  | int82 (t : Trap) (reads : Bool)
  | timer (t : Trap)
  | keyboard (t : Trap) (i : Option (Fin 3))
  /-- The tail of the handler ends. -/
  | finish (t : Trap)
  /-- A shell command reads clusters of a file, which ends in `enable()`. -/
  | readFile
  /-- `exec_user_prg` creates a process for the program at `addr`. -/
  | create (addr flag : Word)
  /-- `exec_user_prg` calls `schedule_proc`. -/
  | schedule

/-- Ring-3 code is entered. No image clears the interrupt flag and ring 3 cannot clear it. -/
def toUser (k : Kernel) : Machine :=
  match k.currProc with
  | some p => ⟨.user, (k.setFlag true).emit (.goesOn p)⟩
  | none => ⟨.user, k.setFlag true⟩

/-- The processor goes on with the register file that `restart_proc` has loaded. -/
def land (c : Cpu) (k : Kernel) : Machine := if isUser c.cs then toUser k else ⟨.lost, k⟩

/-- Kernel code has left without returning. -/
def leave : Exit → Kernel → Machine
  | .resumed c, k => land c k
  | .shell, k => ⟨.shell, k⟩
  | .processReturn, k => ⟨.tail .processReturn, k⟩
  | .fault f, k => ⟨.fault f, k⟩

/-- After a system call: `sti` and `iretd`, with a tail in between if interrupts are on already. -/
def settle : EStateM.Result Exit Kernel Word → Machine
  | .ok _ k => if k.intFlag then ⟨.tail .iret, k⟩ else toUser k
  | .error e k => leave e k

/-- After the timer handler: `sti` and `iretd` to the code that was interrupted in mode `m`. -/
def resume (m : Mode) : EStateM.Result Exit Kernel Unit → Machine
  | .ok _ k => ⟨m, k.setFlag true⟩
  | .error e k => leave e k

/-- After the keyboard handler; a change of the terminal leaves interrupts on. -/
def resumeKey (m : Mode) : EStateM.Result Exit Kernel Unit → Machine
  | .ok _ k => if k.intFlag ∧ m = .user then ⟨.tail .iret, k⟩ else ⟨m, k.setFlag true⟩
  | .error e k => leave e k

/-- After a step of the shell. -/
def shellResult {α : Type} : EStateM.Result Exit Kernel α → Machine
  | .ok _ k => ⟨.shell, k⟩
  | .error e k => leave e k

/-- The trap taken in ring-3 code. -/
def Trap.user (t : Trap) : Trap := { t with cpu := { t.cpu with cs := USER_CS } }

/-- The trap taken in the kernel. -/
def Trap.kernel (t : Trap) : Trap := { t with cpu := { t.cpu with cs := KERNEL_CS } }

/-- `user_process_return` called in the kernel: `int 0x80` with 100 in `eax`. -/
def Trap.processReturn (t : Trap) : Trap :=
  { t with cpu := { t.cpu with cs := KERNEL_CS, eax := 100 } }

/-- One step of the machine. -/
def step : Machine → Label → Option Machine
  | ⟨.user, k⟩, .int80 t => some (settle (sysInterruptHandler t.user k))
  | ⟨.user, k⟩, .int81 t => some (settle (sysPthreadHandler t.user k))
  | ⟨.user, k⟩, .int82 t reads => some (settle (sysFileHandler t.user reads k))
  | ⟨.user, k⟩, .timer t => some (resume .user (pitHandler t.user k))
  | ⟨.user, k⟩, .keyboard t i => some (resumeKey .user (keyboardHandler t.user i k))
  | ⟨.tail c, k⟩, .timer t => some (resume (.tail c) (pitHandler t.kernel k))
  | ⟨.tail c, k⟩, .keyboard t i => some (resumeKey (.tail c) (keyboardHandler t.kernel i k))
  | ⟨.tail .iret, k⟩, .finish _ => some (toUser k)
  | ⟨.tail .processReturn, k⟩, .finish t => some (settle (sysInterruptHandler t.processReturn k))
  | ⟨.shell, k⟩, .timer t =>
    if k.intFlag then some (resume .shell (pitHandler t.kernel k)) else none
  | ⟨.shell, k⟩, .keyboard t i =>
    if k.intFlag then some (resumeKey .shell (keyboardHandler t.kernel i k)) else none
  | ⟨.shell, k⟩, .readFile => some ⟨.shell, k.setFlag true⟩
  | ⟨.shell, k⟩, .create addr flag => some (shellResult (procCreate USER_CS USER_DS addr flag k))
  | ⟨.shell, k⟩, .schedule => some (shellResult (scheduleProc k))
  | _, _ => none

/-- The kernel before `initialize`; the addresses are those of the linked image. -/
def Kernel.loaded (processReturn pthreadReturn : Word) (mem : Mem) : Kernel where
  procList := fun _ => {}
  currProc := none
  currPid := 0
  semList := fun _ => {}
  pitTicks := 0
  intFlag := true
  currTerminal := 0
  tmpTerminal := 0
  mem := mem
  processReturn := processReturn
  pthreadReturn := pthreadReturn
  trace := []
  frames := []

/-- The machine when `terminal_loop` starts. -/
def boot (processReturn pthreadReturn : Word) (mem : Mem) : Machine :=
  ⟨.shell, semInit (procInit (Kernel.loaded processReturn pthreadReturn mem))⟩

end AdvancedOS
