import AdvancedOS.Sem.Code
import AdvancedOS.Thread.Code

/-!
# System calls

The three handlers installed at `0x80`, `0x81` and `0x82`: the assembly stub saves the caller and
calls the C part, which reads the function number from `eax` and the arguments from the other
registers. Numbers 0 and 1 of `0x80` only print and count. The file functions of `0x82` touch no
variable of the process code; of them only the interrupt flag is described here.
-/

namespace AdvancedOS

/-- `sys_interrupt_handler_main`: function number and argument. -/
def decode80 (no arg : Word) : Call :=
  if no = 0 then .logo
  else if no = 1 then .busy
  else if no = 10 then .fork
  else if no = 11 then .wait
  else if no = 12 then .exit
  else if no = 13 then .getPid
  else if no = 20 then .getSem arg.toInt
  else if no = 21 then .semP arg.toInt
  else if no = 22 then .semV arg.toInt
  else if no = 23 then .freeSem arg.toInt
  else if no = 100 then .processReturn
  else .unknown

/-- `sys_pthread_handler_main`: function number and arguments. -/
def decode81 (no arg1 arg2 arg3 : Word) : Call :=
  if no = 0 then .threadCreate arg1 arg2 arg3
  else if no = 1 then .threadJoin arg1
  else if no = 2 then .threadSelf
  else if no = 3 then .threadExit
  else .unknown

/-- The branch of number 100. -/
def leaveProc : Kern Word := do
  let c ← curr
  setStatus c .terminated
  emit (.terminated c)
  modify (·.setCurr none) -- important!
  enable
  throw .shell

/-- `sys_file_handler_main`: `do_fopen` may read clusters, which ends in `enable()`; `do_fclose`
always ends in `enable()`. -/
def sysFileHandlerMain (no : Word) (reads : Bool) : Kern Word := do
  if no = 0 ∧ reads then enable
  else if no = 1 then enable
  return 0

/-- The C parts of the handlers. -/
def handlerMain (reads : Bool) : Call → Kern Word
  | .logo | .busy | .unknown => return 0
  | .fork => doFork
  | .wait => do doWait; return 0
  | .exit => do doExit; return 0
  | .getPid => sysGetPid
  | .getSem val => doGetsem val
  | .semP id => do doSemP id; return 0
  | .semV id => do doSemV id; return 0
  | .freeSem id => do doFreesem id; return 0
  | .processReturn => leaveProc
  | .threadCreate tid func args => doThreadCreate tid func args
  | .threadJoin tid => do doThreadJoin tid 0; return 0
  | .threadSelf => doThreadSelf
  | .threadExit => do doThreadExit; return 0
  | .file no => sysFileHandlerMain no reads

/-- A system call: the gate clears the interrupt flag, the stub saves the caller and calls the C
part. -/
def handler (t : Trap) (c : Call) (reads : Bool) : Kern Word := do
  record (.trap t)
  disable
  saveProc (cdecl (entryStack t))
  match (← get).currProc with
  | some p => emit (.call p c)
  | none => pure ()
  handlerMain reads c

/-- `sys_interrupt_handler`. -/
def sysInterruptHandler (t : Trap) : Kern Word :=
  handler t (decode80 t.cpu.eax t.cpu.ebx) false

/-- `sys_pthread_handler`. -/
def sysPthreadHandler (t : Trap) : Kern Word :=
  handler t (decode81 t.cpu.eax t.cpu.ebx t.cpu.ecx t.cpu.edx) false

/-- `sys_file_handler`; `reads` tells whether `do_fopen` reads clusters. -/
def sysFileHandler (t : Trap) (reads : Bool) : Kern Word := handler t (.file t.cpu.eax) reads

/-- `pit_handler`. -/
def pitHandler (t : Trap) : Kern Unit := do
  record (.trap t)
  disable
  pitHandlerMain (cdecl (entryStack t))

/-- `change_terminal(i)`, as far as the process code sees it. -/
def changeTerminal (i : ℕ) : Kern Unit := do
  disable
  match (← get).currProc with
  | none => modify fun k => { k with currTerminal := i, tmpTerminal := i }
  | some _ => modify fun k => { k with currTerminal := i }
  enable

/-- `keyboard_handler`; `i` is the terminal a control key selects. -/
def keyboardHandler (t : Trap) (i : Option (Fin 3)) : Kern Unit := do
  record (.trap t)
  disable
  match i with
  | some i => changeTerminal i
  | none => pure ()

end AdvancedOS
