import AdvancedOS.Lib.Ends
import AdvancedOS.Task.Pick

/-!
# What the functions of `task.h` do

One equivalence for each function, in terms of changes of the kernel variables that have a name:
`save`, `switchTo`, `blocking`, `waking`, `ending`, `spawn`.
-/

namespace AdvancedOS

variable {k : Kernel} {p q i : Slot} {E : Exit → Kernel → Prop}

namespace Kernel

def setStatus (i : Slot) (st : Status) (k : Kernel) : Kernel :=
  k.setProc i fun p => { p with status := st }

/-- `save_proc` while `p` is the current process. -/
def save (p : Slot) (a : Regs) (k : Kernel) : Kernel :=
  (k.setProc p fun e => { e with regImg := savedImage a }).record (.saved p a (savedImage a))

/-- `proc_pick` has been called. -/
def decided (k : Kernel) : Kernel := k.emit (.picked k.statuses (pick k.statuses))

/-- The first part of `proc_switch`: a running process becomes ready. -/
def demote (k : Kernel) : Kernel :=
  if k.currPid ≠ 0 then
    match k.currProc with
    | none => k
    | some c => if (k.procList c).status = .running then k.setStatus c .ready else k
  else k

/-- The second part of `proc_switch`: `q` becomes the current process. -/
def enterProc (q : Slot) (k : Kernel) : Kernel :=
  let k := ((k.setProc q fun p => { p with tick := MAX_TICK }).setStatus q .running).setCurr q
  ({ k with tmpTerminal := (k.procList q).terminal }).record
    (.restarted q (k.procList q).regImg.args)

/-- `proc_switch(q)`. -/
def switchTo (q : Slot) (k : Kernel) : Kernel := k.demote.enterProc q

/-- The register file that `proc_switch(q)` loads. -/
def loadedCpu (q : Slot) (k : Kernel) : Cpu := restartProc {} (k.procList q).regImg.args

/-- `p` waits, and another process is looked for. -/
def blocking (p : Slot) (k : Kernel) : Kernel :=
  ((k.setFlag false).setStatus p .waiting).decided

/-- `i` is woken, and a process to run is looked for. -/
def waking (i : Slot) (k : Kernel) : Kernel :=
  (((k.setFlag false).setStatus i .ready).emit (.woken i)).decided

/-- `p` has exited. -/
def ending (p : Slot) (k : Kernel) : Kernel :=
  ((k.setFlag false).setStatus p .terminated).emit (.terminated p)

/-- The entry `i` is allocated and filled. -/
def spawn (i : Slot) (r : Regs) (parent : Option Slot) (terminal : ℕ) (mem : Mem) (k : Kernel) :
    Kernel :=
  ({ k with
    procList := Function.update k.procList i
      { k.procList i with
        regImg := r, pid := k.currPid + 1, parent := parent, status := .ready, tick := MAX_TICK,
        terminal := terminal }
    currPid := k.currPid + 1
    intFlag := false
    mem := mem }).record (.created i r)

end Kernel

/-! ## The primitives -/

@[simp] theorem ends_emit (e : Event) {Q : Unit → Kernel → Prop} :
    Ends (emit e) k Q E ↔ Q () (k.emit e) := ends_modify _

@[simp] theorem ends_record (e : FrameEvent) {Q : Unit → Kernel → Prop} :
    Ends (record e) k Q E ↔ Q () (k.record e) := ends_modify _

@[simp] theorem ends_setProc (f : Process → Process) {Q : Unit → Kernel → Prop} :
    Ends (setProc i f) k Q E ↔ Q () (k.setProc i f) := ends_modify _

@[simp] theorem ends_setSem (s : SemId) (f : Semaphore → Semaphore) {Q : Unit → Kernel → Prop} :
    Ends (setSem s f) k Q E ↔ Q () (k.setSem s f) := ends_modify _

@[simp] theorem ends_setStatus (st : Status) {Q : Unit → Kernel → Prop} :
    Ends (setStatus i st) k Q E ↔ Q () (k.setStatus i st) := ends_modify _

@[simp] theorem ends_entry {Q : Process → Kernel → Prop} :
    Ends (entry i) k Q E ↔ Q (k.procList i) k := by
  simp [entry]

@[simp] theorem ends_enable {Q : Unit → Kernel → Prop} :
    Ends enable k Q E ↔ Q () (k.setFlag true) := ends_modify _

@[simp] theorem ends_disable {Q : Unit → Kernel → Prop} :
    Ends disable k Q E ↔ Q () (k.setFlag false) := ends_modify _

@[simp] theorem ends_setTmpTerminal (t : ℕ) {Q : Unit → Kernel → Prop} :
    Ends (setTmpTerminal t) k Q E ↔ Q () { k with tmpTerminal := t } := ends_modify _

theorem ends_deref (o : Option Slot) {Q : Slot → Kernel → Prop} :
    Ends (deref o) k Q E ↔ (o = none → E (.fault .null) k) ∧ ∀ i, o = some i → Q i k := by
  cases o <;> simp [deref]

theorem ends_curr {Q : Slot → Kernel → Prop} (h : k.currProc = some p) :
    Ends curr k Q E ↔ Q p k := by
  simp [curr, ends_deref, h]

@[simp] theorem setFlag_setFlag (a b : Bool) : (k.setFlag a).setFlag b = k.setFlag b := rfl

/-! ## The scheduler -/

theorem setProc_regImg (f : Process → Process) (hf : ∀ e, (f e).regImg = e.regImg) (j : Slot) :
    ((k.setProc i f).procList j).regImg = (k.procList j).regImg := by
  by_cases h : j = i
  · subst h
    simp [hf]
  · simp [h]

theorem demote_regImg (k : Kernel) (j : Slot) :
    (k.demote.procList j).regImg = (k.procList j).regImg := by
  unfold Kernel.demote
  split
  · split
    · rfl
    · split
      · exact setProc_regImg (fun e => { e with status := .ready }) (fun _ => rfl) j
      · rfl
  · rfl

theorem enterProc_regImg (k : Kernel) :
    ((k.enterProc q).procList q).regImg = (k.procList q).regImg := by
  simp [Kernel.enterProc, Kernel.setStatus]

theorem ends_procSwitch {Q : Unit → Kernel → Prop} :
    Ends (procSwitch q) k Q E ↔ E (.resumed (k.loadedCpu q)) (k.switchTo q) := by
  have hi : restartProc {} ((k.demote.enterProc q).procList q).regImg.args = k.loadedCpu q := by
    rw [enterProc_regImg, demote_regImg, Kernel.loadedCpu]
  rw [← hi, Kernel.switchTo]
  by_cases h0 : k.currPid = 0#32
  · simp [procSwitch, resetTime, Kernel.demote, h0]
    rfl
  · cases hc : k.currProc with
    | none =>
      simp [procSwitch, resetTime, Kernel.demote, h0, hc]
      rfl
    | some c =>
      by_cases hr : (k.procList c).status = .running
      · simp [procSwitch, resetTime, Kernel.demote, h0, hc, hr]
        rfl
      · simp [procSwitch, resetTime, Kernel.demote, h0, hc, hr]
        rfl

theorem ends_scheduleProc {Q : Unit → Kernel → Prop} :
    Ends scheduleProc k Q E ↔ (pick k.statuses = none → Q () k.decided) ∧
      ∀ q, pick k.statuses = some q →
        E (.resumed (k.decided.loadedCpu q)) (k.decided.switchTo q) := by
  cases h : pick k.statuses with
  | none => simp [scheduleProc, procPick, Kernel.decided, h]
  | some q => simp [scheduleProc, procPick, Kernel.decided, h, ends_procSwitch]

theorem ends_sysGetPid {Q : Word → Kernel → Prop} (h : k.currProc = some p) :
    Ends sysGetPid k Q E ↔ Q (k.procList p).pid k := by
  simp [sysGetPid, h]

theorem ends_saveProc (a : Regs) {Q : Unit → Kernel → Prop} :
    Ends (saveProc a) k Q E ↔ (k.currProc = none → Q () k) ∧
      ∀ p, k.currProc = some p → Q () (k.save p a) := by
  cases h : k.currProc <;> simp [saveProc, Kernel.save, h]

@[simp] theorem save_currProc (a : Regs) : (k.save p a).currProc = k.currProc := rfl

/-- What the timer does to the clock. -/
def Kernel.clock (k : Kernel) : Kernel := { k with pitTicks := k.pitTicks + 1 }

/-- The time slice of `p` gets shorter. -/
def Kernel.tick (p : Slot) (k : Kernel) : Kernel :=
  k.clock.setProc p fun e => { e with tick := e.tick - 1 }

theorem ends_pitHandlerMain_none (a : Regs) {Q : Unit → Kernel → Prop} (h : k.currProc = none) :
    Ends (pitHandlerMain a) k Q E ↔ (k.currPid = 0 → Q () k.clock) ∧
      (k.currPid ≠ 0 → Ends scheduleProc k.clock Q E) := by
  by_cases h0 : k.currPid = 0#32 <;> simp [pitHandlerMain, Kernel.clock, h, h0]

theorem ends_pitHandlerMain_some (a : Regs) {Q : Unit → Kernel → Prop} (h : k.currProc = some p) :
    Ends (pitHandlerMain a) k Q E ↔ (0 < (k.procList p).tick → Q () (k.tick p)) ∧
      ((k.procList p).tick = 0 → Ends scheduleProc (k.clock.save p a) Q E) := by
  have hc : k.clock.currProc = some p := h
  by_cases ht : 0 < (k.procList p).tick
  · simp [pitHandlerMain, Kernel.tick, Kernel.clock, h, ht, Nat.pos_iff_ne_zero.mp ht]
  · have ht' : (k.procList p).tick = 0 := by omega
    have hs := ends_saveProc (k := k.clock) (E := E) a (Q := fun _ k' => Ends scheduleProc k' Q E)
    simp only [hc, reduceCtorEq, false_implies, Option.some.injEq, forall_eq', true_and] at hs
    rw [← hs]
    simp [pitHandlerMain, Kernel.clock, h, ht']

/-! ## Creation -/

/-- The image that `proc_create` gives to the entry whose image was `r`. -/
def createdImage (r : Regs) (cs ds addr flag : Word) : Regs :=
  { r with
    cs := cs
    ds := ds, es := ds, fs := ds, gs := ds, ss := ds
    eflags := flag ||| 0x200
    eip := addr
    esp := addr + PROC_SIZE, ebp := addr + PROC_SIZE, userEsp := addr + PROC_SIZE - 4 }

theorem ends_procCreate (cs ds addr flag : Word) {Q : Slot → Kernel → Prop} :
    Ends (procCreate cs ds addr flag) k Q E ↔
      (freeSlot k.procList = none → E (.fault .null) (k.setFlag false)) ∧
      ∀ i, freeSlot k.procList = some i → Q i (k.spawn i
        (createdImage (k.procList i).regImg cs ds addr flag) (k.procList i).parent k.currTerminal
        (k.mem.write (addr + PROC_SIZE - 4) k.processReturn)) := by
  cases h : freeSlot k.procList with
  | none => simp [procCreate, procAlloc, ends_deref, h, Kernel.setFlag]
  | some i =>
    simp [procCreate, procAlloc, ends_deref, h, resetTime, getCurrentTerminal, Kernel.spawn,
      createdImage, Kernel.setProc, Kernel.setStatus, Kernel.setFlag, Kernel.record]

/-- The image that `do_fork` gives to a child with the identifier `pid` of a parent with the image
`r`. -/
def forkImage (r : Regs) (pid : Word) : Regs := { copiedImage r (pid * 0x100) with eax := 0 }

/-- The memory after the parent's stack has been copied. -/
def forkMem (r : Regs) (pid : Word) (m : Mem) : Mem :=
  memcpy m (r.userEsp + pid * 0x100) r.userEsp ((r.ebp - r.userEsp) * 2).toNat

theorem ends_copyProc {Q : Unit → Kernel → Prop} (h : k.currProc = some p) :
    Ends (copyProc i) k Q E ↔ Q () { k with
      procList := Function.update k.procList i { k.procList i with
        regImg := forkImage (k.procList p).regImg (k.procList i).pid
        parent := some p, status := .ready, tick := MAX_TICK }
      mem := forkMem (k.procList p).regImg (k.procList i).pid k.mem } := by
  simp [copyProc, ends_curr h, resetTime, Kernel.setProc, Kernel.setStatus, forkImage, copiedImage,
    forkMem]

theorem ends_doFork {Q : Word → Kernel → Prop} (h : k.currProc = some p) :
    Ends doFork k Q E ↔ (freeSlot k.procList = none → Q (-1) (k.setFlag true)) ∧
      ∀ i, freeSlot k.procList = some i → Q (k.currPid + 1) (k.spawn i
        (forkImage (k.procList p).regImg (k.currPid + 1)) (some p) (k.procList i).terminal
        (forkMem (k.procList p).regImg (k.currPid + 1) k.mem)) := by
  cases hi : freeSlot k.procList with
  | none => simp [doFork, procAlloc, hi, Kernel.setFlag]
  | some i =>
    have hr := setProc_regImg (k := k) (i := i)
      (fun e => { e with pid := k.currPid + 1#32, status := .ready }) (fun _ => rfl) p
    rw [Kernel.setProc_procList] at hr
    simp [doFork, procAlloc, hi, Kernel.setFlag, Kernel.setStatus, Kernel.setProc,
      ends_copyProc (p := p), h, Kernel.spawn, Kernel.record, hr]

/-! ## Waiting and waking -/

theorem ends_block {Q : Unit → Kernel → Prop} (h : k.currProc = some p) :
    Ends block k Q E ↔
      (pick ((k.setFlag false).setStatus p .waiting).statuses = none →
        Q () ((k.blocking p).setFlag true)) ∧
      ∀ q, pick ((k.setFlag false).setStatus p .waiting).statuses = some q →
        E (.resumed ((k.blocking p).loadedCpu q)) ((k.blocking p).switchTo q) := by
  have hc : (k.setFlag false).currProc = some p := h
  simp [block, ends_curr hc, ends_scheduleProc, Kernel.blocking]

theorem ends_wakeup (pid : BitVec 8) {Q : Unit → Kernel → Prop} :
    Ends (wakeup pid) k Q E ↔ (waitingSlot k.procList pid = none → Q () (k.setFlag true)) ∧
      ∀ i, waitingSlot k.procList pid = some i → ∀ q,
        pick (((k.setFlag false).setStatus i .ready).emit (.woken i)).statuses = some q →
          E (.resumed ((k.waking i).loadedCpu q)) ((k.waking i).switchTo q) := by
  cases hw : waitingSlot k.procList pid with
  | none => simp [wakeup, hw]
  | some i =>
    have hr : pick (((k.setFlag false).setStatus i .ready).emit (.woken i)).statuses ≠ none :=
      pick_ne_none (i := i) (by simp [Kernel.statuses, Kernel.setStatus])
    simp [wakeup, hw, ends_scheduleProc, hr, Kernel.waking]

theorem ends_terminate {Q : Unit → Kernel → Prop} (h : k.currProc = some p) :
    Ends terminate k Q E ↔ ((k.procList p).parent = none → Q () ((k.ending p).setFlag true)) ∧
      ∀ q, (k.procList p).parent = some q →
        Ends (wakeup (((k.ending p).procList q).pid.setWidth 8)) (k.ending p)
          (fun _ k' => Q () (k'.setFlag true)) E := by
  have hc : (k.setFlag false).currProc = some p := h
  cases hp : (k.procList p).parent with
  | none => simp [terminate, ends_curr hc, Kernel.ending, Kernel.setStatus, hp]
  | some q => simp [terminate, ends_curr hc, Kernel.ending, Kernel.setStatus, hp]

end AdvancedOS
