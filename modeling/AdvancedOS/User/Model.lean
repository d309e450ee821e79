import AdvancedOS.Fat.Code
import AdvancedOS.Machine.Model

/-!
# The state that the shell works on

The commands of the shell call both the process code and the file system code, which share the
memory and the interrupt flag, and a timer interrupt may arrive whenever the flag is set.

* `Sys`: the kernel variables and those of the file system; the interrupts to come; and a list of
  the processes that were created for programs, which no function reads;
* `SysKern`, `onKernel`, `onFs`: code on this state, and the code of the two parts on it;
* `letIn`: a point at which the interrupts arrive.
-/

namespace AdvancedOS

/-- A process that `exec_user_prg` has created: for which program, with which argument of
`proc_create`, and where the program was loaded. -/
structure Creation where
  name : CStr
  slot : Slot
  addr : Word
  base : Word
  size : ℕ

/-- The kernel, the file system, and what is to come and has been. -/
structure Sys where
  k : Kernel
  fs : FileSystem
  /-- The timer interrupts at the next points at which the flag is looked at. -/
  arrivals : ℕ → List Trap
  created : List Creation

/-- How a command never returns to the shell. -/
inductive Stop where
  | halt (h : Halt)
  | exit (e : Exit)
  deriving DecidableEq

/-- The code of the shell. -/
abbrev SysKern := EStateM Stop Sys

namespace Sys

/-- The kernel is in the state `k`. -/
@[simps -fullyApplied]
def setKernel (k : Kernel) (s : Sys) : Sys := ⟨k, s.fs, s.arrivals, s.created⟩

/-- The file system, with what it shares with the kernel. -/
@[simps toFileSystem mem intFlag]
def files (s : Sys) : Fs := ⟨s.fs, s.k.mem, s.k.intFlag⟩

/-- The file system is in the state `f`. -/
def setFiles (f : Fs) (s : Sys) : Sys :=
  ⟨{ s.k with mem := f.mem, intFlag := f.intFlag }, f.toFileSystem, s.arrivals, s.created⟩

/-- A point has been passed. -/
@[simps]
def pass (s : Sys) : Sys := ⟨s.k, s.fs, fun n => s.arrivals (n + 1), s.created⟩

/-- A process has been created. -/
@[simps -fullyApplied]
def log (c : Creation) (s : Sys) : Sys := ⟨s.k, s.fs, s.arrivals, s.created ++ [c]⟩

end Sys

/-- Process code. -/
def onKernel {α : Type} (x : Kern α) : SysKern α := onPart Sys.k Sys.setKernel .exit x

/-- File system code. -/
def onFs {α : Type} (x : FsKern α) : SysKern α := onPart Sys.files Sys.setFiles .halt x

/-- A timer interrupt in the kernel; `iretd` sets the flag again. -/
def timer (t : Trap) : SysKern Unit := onKernel do
  pitHandler t.kernel
  enable

/-- The interrupts that are due arrive, if the flag is set. -/
def letIn : SysKern Unit := do
  let s ← get
  modify Sys.pass
  if s.k.intFlag then (s.arrivals 0).forM timer

end AdvancedOS
