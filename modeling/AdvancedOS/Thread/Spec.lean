import AdvancedOS.Task.Spec
import AdvancedOS.Thread.Code

/-!
# What the functions of `systhread.h` do
-/

namespace AdvancedOS

variable {k : Kernel} {p : Slot} {E : Exit → Kernel → Prop}

/-- The image that `do_thread_create` gives to a thread with the identifier `pid` that starts at
`func`; two words are on its stack. -/
def threadImage (r : Regs) (pid func : Word) : Regs :=
  { forkImage r pid with eip := func, userEsp := (forkImage r pid).userEsp - 4 - 4 }

/-- The memory with the argument and the return address on the new stack and the identifier stored
at `tid`. -/
def threadMem (r : Regs) (pid args ret tid : Word) (m : Mem) : Mem :=
  (((forkMem r pid m).write ((forkImage r pid).userEsp - 4) args).write
    ((forkImage r pid).userEsp - 4 - 4) ret).write tid pid

theorem ends_doThreadCreate (tid func args : Word) {Q : Word → Kernel → Prop}
    (h : k.currProc = some p) :
    Ends (doThreadCreate tid func args) k Q E ↔
      (freeSlot k.procList = none → Q (-1) (k.setFlag true)) ∧
      ∀ i, freeSlot k.procList = some i → Q 0 (k.spawn i
        (threadImage (k.procList p).regImg (k.currPid + 1) func) (some p) (k.procList i).terminal
        (threadMem (k.procList p).regImg (k.currPid + 1) args k.pthreadReturn tid k.mem)) := by
  cases hi : freeSlot k.procList with
  | none => simp [doThreadCreate, procAlloc, hi, Kernel.setFlag]
  | some i =>
    have hr := setProc_regImg (k := k) (i := i)
      (fun e => { e with pid := k.currPid + 1#32, status := .ready }) (fun _ => rfl) p
    rw [Kernel.setProc_procList] at hr
    simp [doThreadCreate, procAlloc, hi, Kernel.setFlag, Kernel.setStatus, Kernel.setProc,
      ends_copyProc (p := p), h, Kernel.spawn, Kernel.record, hr, threadImage, threadMem]

theorem ends_doThreadSelf {Q : Word → Kernel → Prop} (h : k.currProc = some p) :
    Ends doThreadSelf k Q E ↔ Q (k.procList p).pid k := by
  simp [doThreadSelf, ends_curr h]

theorem ends_doThreadExit {Q : Unit → Kernel → Prop} :
    Ends doThreadExit k Q E ↔ Ends terminate k (fun _ k' => E .processReturn k') E := by
  simp [doThreadExit]

end AdvancedOS
