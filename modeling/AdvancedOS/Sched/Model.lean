import AdvancedOS.Machine.Model
import AdvancedOS.Task.Pick

/-!
# The scheduling view of the machine

What is left of the machine when register images, user memory, time slices, terminals and the
interrupt flag are forgotten: who may run, who waits for what, and the history.

* `Sched`: the part of the kernel variables that decides who runs, with the changes that the system
  calls make to it (`spawn`, `queued`, `ended`, …);
* `View`: a `Sched` and the mode of the processor;
* `Seeks`: how a search for a process to run ends;
* `Serves`: how a system call of the current process ends;
* `Moves`: one step, labelled with the system call that it begins, if any.

A step of the machine is a step of its view (`AdvancedOS.step_moves`), so what holds in every run of
views holds in every run of the machine.
-/

namespace AdvancedOS

open Function (update)

structure Sched where
  status : Slot → Status
  next : Slot → Option Slot
  parent : Slot → Option Slot
  pid : Slot → Word
  currPid : Word
  curr : Option Slot
  sem : SemId → Semaphore
  trace : List Event

/-- The statuses when the process that was running is ready again. -/
def unrun (t : Slot → Status) : Slot → Status := fun i => if t i = .running then .ready else t i

/-- The statuses when `q` runs and the process that was running is ready again. -/
def promote (q : Slot) (t : Slot → Status) : Slot → Status := update (unrun t) q .running

namespace Sched

@[simps -fullyApplied] def emit (e : Event) (s : Sched) : Sched := { s with trace := e :: s.trace }

@[simps -fullyApplied] def setStatus (i : Slot) (st : Status) (s : Sched) : Sched :=
  { s with status := update s.status i st }

@[simps -fullyApplied] def setSem (i : SemId) (x : Semaphore) (s : Sched) : Sched :=
  { s with sem := update s.sem i x }

/-- The process that has run goes on or, if `q` is another one, is ready; `q` is the current
process. -/
@[simps -fullyApplied] def switchTo (q : Slot) (s : Sched) : Sched :=
  { s with
    status := promote q s.status
    curr := some q
    trace := .picked s.status (some q) :: s.trace }

/-- The entry `i` is given to a new process. -/
@[simps -fullyApplied] def spawn (i : Slot) (parent : Option Slot) (s : Sched) : Sched :=
  { s with
    status := update s.status i .ready
    parent := update s.parent i parent
    pid := update s.pid i (s.currPid + 1)
    currPid := s.currPid + 1 }

/-- `p` has exited. -/
@[simps -fullyApplied] def ended (p : Slot) (s : Sched) : Sched :=
  { s with status := update s.status p .terminated, trace := .terminated p :: s.trace }

/-- `q` is ready again. -/
@[simps -fullyApplied] def woke (q : Slot) (s : Sched) : Sched :=
  { s with status := update s.status q .ready, trace := .woken q :: s.trace }

/-- `p` finds no unit of `i` left and waits in its queue. -/
@[simps -fullyApplied] def queued (p : Slot) (i : SemId) (s : Sched) : Sched :=
  { s with
    status := update s.status p .waiting
    next := update s.next p (s.sem i).head
    sem := update s.sem i { s.sem i with val := (s.sem i).val - 1, head := some p }
    trace := .blocked p i :: s.trace }

/-- `p` leaves for the shell. -/
@[simps -fullyApplied] def left (p : Slot) (s : Sched) : Sched :=
  { s with
    status := update s.status p .terminated
    curr := none
    trace := .terminated p :: s.trace }

end Sched

/-! ## Kinds of system calls -/

namespace Call

/-- The call returns to its caller and changes nothing. -/
def Quiet : Call → Prop
  | logo | busy | unknown | getPid | threadSelf | file _ => True
  | _ => False

/-- The call creates a process. -/
def Spawns : Call → Prop
  | fork | threadCreate .. => True
  | _ => False

/-- The call makes its caller wait, whatever the state. -/
def Waits : Call → Prop
  | wait | threadJoin _ => True
  | _ => False

/-- The call ends its caller. -/
def Exits : Call → Prop
  | exit | threadExit => True
  | _ => False

/-- What is left to do after the call. -/
def tail : Call → Tail
  | threadExit => .processReturn
  | _ => .iret

instance : DecidablePred Quiet := fun c => by cases c <;> unfold Quiet <;> infer_instance

instance : DecidablePred Spawns := fun c => by cases c <;> unfold Spawns <;> infer_instance

instance : DecidablePred Waits := fun c => by cases c <;> unfold Waits <;> infer_instance

instance : DecidablePred Exits := fun c => by cases c <;> unfold Exits <;> infer_instance

end Call

/-! ## Steps -/

structure View where
  mode : Mode
  s : Sched

/-- The processor has not left the part of the kernel that is described. -/
def Mode.Live : Mode → Prop
  | .user | .shell | .tail _ => True
  | .lost | .fault _ => False

/-- A process to run is looked for; if there is none, the processor goes on in mode `m`. -/
inductive Seeks (s : Sched) (m : Mode) : View → Prop
  | nobody : pick s.status = none → Seeks s m ⟨m, s.emit (.picked s.status none)⟩
  | user {q : Slot} : pick s.status = some q → Seeks s m ⟨.user, (s.switchTo q).emit (.goesOn q)⟩
  | lost {q : Slot} : pick s.status = some q → Seeks s m ⟨.lost, s.switchTo q⟩

/-- How a system call of the current process `p` ends. -/
inductive Serves (p : Slot) (s : Sched) : Call → View → Prop
  | quiet {c : Call} : c.Quiet → Serves p s c ⟨.user, s.emit (.goesOn p)⟩
  /-- Interrupts are on when the file functions return. -/
  | file {no : Word} : Serves p s (.file no) ⟨.tail .iret, s⟩
  | full {c : Call} : c.Spawns → (∀ i, s.status i ≠ .new) → Serves p s c ⟨.tail .iret, s⟩
  | spawned {c : Call} {i : Slot} : c.Spawns → s.status i = .new →
      Serves p s c ⟨.user, (s.spawn i (some p)).emit (.goesOn p)⟩
  | waits {c : Call} {y : View} : c.Waits → Seeks (s.setStatus p .waiting) (.tail .iret) y →
      Serves p s c y
  /-- No parent is waiting: the exit falls through to its caller. -/
  | ends {c : Call} : c.Exits → (∀ q, s.parent p = some q → (s.ended p).status q ≠ .waiting) →
      Serves p s c ⟨.tail c.tail, s.ended p⟩
  | endsWaking {c : Call} {q : Slot} {y : View} : c.Exits → s.parent p = some q →
      (s.ended p).status q = .waiting → Seeks ((s.ended p).woke q) (.tail c.tail) y →
      Serves p s c y
  | leaves : Serves p s .processReturn ⟨.shell, s.left p⟩
  | noSem {v : ℤ} : unusedSem s.sem = none →
      Serves p s (.getSem v) ⟨.user, s.emit (.goesOn p)⟩
  | gotSem {v : ℤ} {i : SemId} : unusedSem s.sem = some i →
      Serves p s (.getSem v)
        ⟨.user, ((s.setSem i { s.sem i with val := v, used := true }).emit (.gotSem i v)).emit
          (.goesOn p)⟩
  | freed {i : SemId} : Serves p s (.freeSem i)
      ⟨.user, (s.setSem i { s.sem i with used := false, head := none }).emit (.goesOn p)⟩
  | badFreeSem {id : ℤ} : Serves p s (.freeSem id) ⟨.fault .bounds, s⟩
  | badSemP {id : ℤ} {f : Fault} : f ≠ .null → Serves p s (.semP id) ⟨.fault f, s⟩
  | badSemV {id : ℤ} {f : Fault} : f ≠ .null → Serves p s (.semV id) ⟨.fault f, s⟩
  | taken {i : SemId} : 0 < (s.sem i).val →
      Serves p s (.semP i) ⟨.tail .iret, s.setSem i { s.sem i with val := (s.sem i).val - 1 }⟩
  | blocked {i : SemId} {y : View} : (s.sem i).val ≤ 0 → Seeks (s.queued p i) (.tail .iret) y →
      Serves p s (.semP i) y
  | released {i : SemId} : 0 ≤ (s.sem i).val →
      Serves p s (.semV i) ⟨.tail .iret, s.setSem i { s.sem i with val := (s.sem i).val + 1 }⟩
  /-- The queue is empty although the value is negative. -/
  | headless {i : SemId} : (s.sem i).val < 0 → (s.sem i).head = none →
      Serves p s (.semV i)
        ⟨.fault .null, s.setSem i { s.sem i with val := (s.sem i).val + 1 }⟩
  /-- The head of the queue is not waiting. -/
  | missed {i : SemId} {h : Slot} : (s.sem i).val < 0 → (s.sem i).head = some h →
      s.status h ≠ .waiting →
      Serves p s (.semV i)
        ⟨.tail .iret, s.setSem i { s.sem i with val := (s.sem i).val + 1, head := s.next p }⟩
  | wakes {i : SemId} {h : Slot} {y : View} : (s.sem i).val < 0 → (s.sem i).head = some h →
      s.status h = .waiting →
      Seeks ((s.setSem i { s.sem i with val := (s.sem i).val + 1, head := s.next p }).woke h)
        (.tail .iret) y →
      Serves p s (.semV i) y

/-- One step; the label is the system call that it begins. -/
inductive Moves : View → Option Call → View → Prop
  | served {m : Mode} {s : Sched} {p : Slot} {c : Call} {y : View} :
      (m = .user ∨ m = .tail .processReturn ∧ c = .processReturn) → s.curr = some p →
      Serves p (s.emit (.call p c)) c y → Moves ⟨m, s⟩ (some c) y
  | finished {s : Sched} {p : Slot} : s.curr = some p →
      Moves ⟨.tail .iret, s⟩ none ⟨.user, s.emit (.goesOn p)⟩
  | idle {m m' : Mode} {s : Sched} : (m' = m ∨ m = .user ∧ m' = .tail .iret) →
      Moves ⟨m, s⟩ none ⟨m', s⟩
  | sought {m : Mode} {s : Sched} {y : View} : m.Live → Seeks s m y → Moves ⟨m, s⟩ none y
  | created {s : Sched} {i : Slot} : s.status i = .new →
      Moves ⟨.shell, s⟩ none ⟨.shell, s.spawn i (s.parent i)⟩
  | failed {s : Sched} : (∀ i, s.status i ≠ .new) → Moves ⟨.shell, s⟩ none ⟨.fault .null, s⟩

/-! ## The view of a machine -/

/-- The scheduling state of the kernel. -/
@[simps -fullyApplied] def Kernel.sched (k : Kernel) : Sched where
  status := fun i => (k.procList i).status
  next := fun i => (k.procList i).next
  parent := fun i => (k.procList i).parent
  pid := fun i => (k.procList i).pid
  currPid := k.currPid
  curr := k.currProc
  sem := k.semList
  trace := k.trace

@[simps] def Machine.view (m : Machine) : View := ⟨m.mode, m.k.sched⟩

/-- The system call that the label begins. -/
def Machine.call (m : Machine) : Label → Option Call
  | .int80 t => some (decode80 t.cpu.eax t.cpu.ebx)
  | .int81 t => some (decode81 t.cpu.eax t.cpu.ebx t.cpu.ecx t.cpu.edx)
  | .int82 t _ => some (.file t.cpu.eax)
  | .finish _ => if m.mode = .tail .processReturn then some .processReturn else none
  | _ => none

end AdvancedOS
