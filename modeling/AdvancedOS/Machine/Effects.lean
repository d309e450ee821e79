import AdvancedOS.Machine.Reach

/-!
# What a step does

The scheduling view forgets register images, time slices and terminals. Here is what a step of the
machine does to them, said once.

* `Core`: the variables that the entries of the process table and the routing of the output are
  made of, with the changes that the kernel makes to them;
* `Acts`: what a system call does to them;
* `Effect`: what a step does to them;
* `step_effect`: **every step of the machine does one of these things.**
-/

namespace AdvancedOS

open Function (update)

/-- The process table without its links, who is current, the terminals, and the history of the
register images. -/
structure Core where
  img : Slot → Regs
  tick : Slot → ℕ
  terminal : Slot → ℕ
  status : Slot → Status
  curr : Option Slot
  currTerminal : ℕ
  tmpTerminal : ℕ
  frames : List FrameEvent

@[simps -fullyApplied] def Kernel.core (k : Kernel) : Core where
  img := fun i => (k.procList i).regImg
  tick := fun i => (k.procList i).tick
  terminal := fun i => (k.procList i).terminal
  status := fun i => (k.procList i).status
  curr := k.currProc
  currTerminal := k.currTerminal
  tmpTerminal := k.tmpTerminal
  frames := k.frames

namespace Core

@[simps -fullyApplied] def record (e : FrameEvent) (s : Core) : Core :=
  { s with frames := e :: s.frames }

@[simps -fullyApplied] def setStatus (i : Slot) (st : Status) (s : Core) : Core :=
  { s with status := update s.status i st }

/-- `save_proc` stores its parameters for `p`. -/
@[simps -fullyApplied] def save (p : Slot) (a : Regs) (s : Core) : Core :=
  { s with img := update s.img p (savedImage a), frames := .saved p a (savedImage a) :: s.frames }

/-- The time slice of `p` gets shorter. -/
@[simps -fullyApplied] def tickDown (p : Slot) (s : Core) : Core :=
  { s with tick := update s.tick p (s.tick p - 1) }

/-- The current process is `q`, with a time slice of its own. -/
@[simps -fullyApplied] def switchTo (q : Slot) (s : Core) : Core :=
  { s with
    status := promote q s.status
    tick := update s.tick q MAX_TICK
    curr := some q
    tmpTerminal := s.terminal q
    frames := .restarted q (s.img q).args :: s.frames }

/-- The entry `i` is given to a new process. -/
@[simps -fullyApplied] def spawn (i : Slot) (r : Regs) (terminal : ℕ) (s : Core) : Core :=
  { s with
    img := update s.img i r
    tick := update s.tick i MAX_TICK
    terminal := update s.terminal i terminal
    status := update s.status i .ready
    frames := .created i r :: s.frames }

/-- `p` leaves for the shell. -/
@[simps -fullyApplied] def left (p : Slot) (s : Core) : Core :=
  { s with status := update s.status p .terminated, curr := none }

end Core

/-! ## Kinds of effects -/

/-- A process to run is looked for. -/
inductive Looks (s : Core) : Core → Prop
  | nobody : pick s.status = none → Looks s s
  | found {q : Slot} : pick s.status = some q → Looks s (s.switchTo q)

/-- What the system call `c` of the current process `p` does. -/
inductive Acts (p : Slot) (s : Core) : Call → Core → Prop
  | quiet {c : Call} : Acts p s c s
  | spawned {c : Call} {i : Slot} {r : Regs} : c.Spawns → s.status i = .new →
      Acts p s c (s.spawn i r (s.terminal i))
  | waits {c : Call} {s' : Core} : Looks (s.setStatus p .waiting) s' → Acts p s c s'
  | ended {c : Call} : Acts p s c (s.setStatus p .terminated)
  | endedWaking {c : Call} {q : Slot} {s' : Core} : (s.setStatus p .terminated).status q = .waiting →
      Looks ((s.setStatus p .terminated).setStatus q .ready) s' → Acts p s c s'
  | woke {c : Call} {h : Slot} {s' : Core} : s.status h = .waiting →
      Looks (s.setStatus h .ready) s' → Acts p s c s'
  | leaves {c : Call} : Acts p s c (s.left p)

/-- What the step `l` of `m` does. -/
inductive Effect (m : Machine) : Label → Core → Prop
  | called {l : Label} {p : Slot} {c : Call} {s' : Core} (t : Trap) : m.call l = some c →
      m.k.currProc = some p →
      Acts p ((m.k.core.record (.trap t)).save p (cdecl (entryStack t))) c s' →
      m.mode.Takes t → Effect m l s'
  | ticked {t : Trap} {p : Slot} (t' : Trap) : m.k.currProc = some p → 0 < m.k.core.tick p →
      m.mode.Takes t' → Effect m (.timer t) ((m.k.core.record (.trap t')).tickDown p)
  | expired {t : Trap} {p : Slot} {s' : Core} (t' : Trap) : m.k.currProc = some p →
      m.k.core.tick p = 0 →
      Looks ((m.k.core.record (.trap t')).save p (cdecl (entryStack t'))) s' →
      m.mode.Takes t' → Effect m (.timer t) s'
  /-- No process has been created yet. -/
  | idle {t : Trap} (t' : Trap) : m.k.currProc = none → m.k.currPid = 0 →
      m.mode.Takes t' → Effect m (.timer t) (m.k.core.record (.trap t'))
  | started {t : Trap} {s' : Core} (t' : Trap) : m.k.currProc = none →
      Looks (m.k.core.record (.trap t')) s' → m.mode.Takes t' → Effect m (.timer t) s'
  | key {t : Trap} {i : Option (Fin 3)} (t' : Trap) : m.mode.Takes t' → Effect m (.keyboard t i)
      { m.k.core.record (.trap t') with
        currTerminal := i.elim m.k.currTerminal (·)
        tmpTerminal := i.elim m.k.tmpTerminal fun i =>
          if m.k.currProc = none then i else m.k.tmpTerminal }
  | finished {t : Trap} : Effect m (.finish t) m.k.core
  | readFile : Effect m .readFile m.k.core
  | created {addr flag : Word} {i : Slot} {r : Regs} : m.k.core.status i = .new →
      Effect m (.create addr flag) (m.k.core.spawn i r m.k.currTerminal)
  | failed {addr flag : Word} : Effect m (.create addr flag) m.k.core
  | scheduled {s' : Core} : Looks m.k.core s' → Effect m .schedule s'

variable {k : Kernel} {p q i h : Slot} {c : Call} {P : Core → Prop}

/-! ## Changes of the kernel variables -/

theorem core_setStatus (st : Status) : (k.setStatus i st).core = k.core.setStatus i st := by
  simp only [Kernel.core, Kernel.setStatus, Kernel.setProc, Core.setStatus, proj_update,
    Function.update_eq_self]

theorem core_save (a : Regs) : (k.save p a).core = k.core.save p a := by
  simp only [Kernel.core, Kernel.save, Kernel.setProc, Kernel.record, Core.save, proj_update,
    Function.update_eq_self]

theorem core_tick : (k.tick p).core = k.core.tickDown p := by
  simp only [Kernel.core, Kernel.tick, Kernel.clock, Kernel.setProc, Core.tickDown, proj_update,
    Function.update_eq_self]

theorem core_spawn (r : Regs) (parent : Option Slot) (terminal : ℕ) (mem : Mem) :
    (k.spawn i r parent terminal mem).core = k.core.spawn i r terminal := by
  simp only [Kernel.core, Kernel.spawn, Kernel.record, Core.spawn, proj_update]

theorem core_ending : (k.ending p).core = k.core.setStatus p .terminated := core_setStatus _

theorem core_leaving : (k.leaving p).core = k.core.left p := by
  have := core_setStatus (k := k) (i := p) .terminated
  exact congrArg (fun s : Core => { s with curr := none }) this

theorem core_enqueue (s : SemId) (v : ℤ) : (k.enqueue p s v).core = k.core := by
  simp only [Kernel.core, Kernel.enqueue, Kernel.setVal, Kernel.setFlag, Kernel.setSem,
    Kernel.setProc, Kernel.emit, proj_update, Function.update_eq_self]

theorem core_demote : k.demote.core = { k.core with status := k.demote.statuses } := by
  unfold Kernel.demote
  split
  · split
    · rfl
    · rename_i c _
      split
      · have hs : (k.setStatus c .ready).statuses = (k.core.setStatus c .ready).status :=
          congrArg Core.status (core_setStatus _)
        rw [core_setStatus, hs]
        rfl
      · rfl
  · rfl

theorem core_enterProc : (k.enterProc q).core =
    { k.core with
      status := update k.statuses q .running
      tick := update k.core.tick q MAX_TICK
      curr := some q
      tmpTerminal := k.core.terminal q
      frames := .restarted q (k.core.img q).args :: k.core.frames } := by
  simp only [Kernel.core, Kernel.enterProc, Kernel.setStatus, Kernel.setProc, Kernel.record,
    Kernel.setCurr, proj_update, Function.update_self, Function.update_idem,
    Function.update_eq_self]
  rfl

/-- `proc_switch` makes the process that was running ready, whichever it was. -/
theorem core_switchTo (hw : k.sched.Wf) (hq : pick k.statuses = some q) :
    (k.decided.switchTo q).core = k.core.switchTo q := by
  have hd : k.decided.sched.Wf := hw.emit (.picked k.statuses (pick k.statuses))
  have hc : k.decided.currPid ≠ 0 := currPid_ne_zero (k := k) hw (pick_ne_new hq)
  have hs : k.decided.demote.statuses = unrun k.statuses :=
    congrArg Sched.status (sched_demote hd hc)
  rw [Kernel.switchTo, core_enterProc, core_demote, hs]
  rfl

/-! ## How the code ends -/

theorem toUser_core (k : Kernel) : (toUser k).k.core = k.core := by
  unfold toUser
  split <;> rfl

theorem leave_core (e : Exit) (k : Kernel) : (leave e k).k.core = k.core := by
  cases e with
  | resumed c =>
    rw [leave, land]
    split
    · exact toUser_core k
    · rfl
  | shell | processReturn | fault => rfl

theorem settle_ok_core (a : Word) (k : Kernel) : (settle (.ok a k)).k.core = k.core := by
  rw [settle]
  split
  · rfl
  · exact toUser_core k

/-- If code leaves because a process is resumed, that process is the current one, and the register
file is the one last loaded. -/
def Exit.Loads (e : Exit) (s : Core) : Prop :=
  ∀ c, e = .resumed c → ∃ (q : Slot) (s₀ : Core), s = s₀.switchTo q ∧
    c = restartProc {} (s₀.img q).args

section

variable {E : Exit → Kernel → Prop}

theorem ends_scheduleProc_looks {Q : Unit → Kernel → Prop} (hw : k.sched.Wf)
    (hQ : P k.core → Q () k.decided) (hE : ∀ e k', P k'.core → e.Loads k'.core → E e k')
    (hP : ∀ s', Looks k.core s' → P s') : Ends scheduleProc k Q E := by
  rw [ends_scheduleProc]
  refine ⟨fun hn => hQ (hP _ (.nobody hn)), fun q hq => ?_⟩
  have hs := core_switchTo hw hq
  refine hE _ _ (by rw [hs]; exact hP _ (.found hq)) ?_
  rintro c ⟨⟩
  exact ⟨q, k.core, hs, rfl⟩

theorem ends_block_waits {Q : Unit → Kernel → Prop} (hw : (k.sched.setStatus p .waiting).Wf)
    (hp : k.currProc = some p) (hQ : ∀ k', P k'.core → Q () k')
    (hE : ∀ e k', P k'.core → e.Loads k'.core → E e k')
    (hP : ∀ s', Looks (k.core.setStatus p .waiting) s' → P s') : Ends block k Q E := by
  have hs : ((k.setFlag false).setStatus p .waiting).sched = k.sched.setStatus p .waiting :=
    sched_setStatus _
  have hc : ((k.setFlag false).setStatus p .waiting).core = k.core.setStatus p .waiting :=
    core_setStatus _
  have := ends_scheduleProc_looks (k := (k.setFlag false).setStatus p .waiting)
    (P := P) (E := E) (Q := fun _ k' => Q () (k'.setFlag true)) (by rwa [hs])
    (fun h => hQ (Kernel.setFlag true _) h) hE (by rwa [hc])
  rw [ends_block hp]
  rwa [ends_scheduleProc] at this

theorem ends_wakeup_woke {Q : Unit → Kernel → Prop} (hw : k.sched.Wf)
    (hh : k.sched.status h ≠ .new) (hQ : P k.core → Q () (k.setFlag true))
    (hE : ∀ e k', P k'.core → e.Loads k'.core → E e k') (hq : P k.core)
    (hP : k.core.status h = .waiting → ∀ s', Looks (k.core.setStatus h .ready) s' → P s') :
    Ends (wakeup ((k.procList h).pid.setWidth 8)) k Q E := by
  rw [ends_wakeup, waitingSlot_pid hw hh]
  split_ifs with hs
  · refine ⟨fun hn => hn.elim, ?_⟩
    rintro i ⟨⟩ q hq
    have hc : (((k.setFlag false).setStatus h .ready).emit (.woken h)).core =
        k.core.setStatus h .ready := core_setStatus (k := k.setFlag false) .ready
    have hsched : (((k.setFlag false).setStatus h .ready).emit (.woken h)).sched =
        k.sched.woke h := by
      rw [sched_emit, sched_setStatus]
      rfl
    have := ends_scheduleProc_looks (P := P) (E := E) (Q := fun _ _ => True)
      (k := ((k.setFlag false).setStatus h .ready).emit (.woken h)) (by rw [hsched]; exact hw.woke hh)
      (fun _ => trivial) hE (by rw [hc]; exact hP hs)
    rw [ends_scheduleProc] at this
    exact this.2 q hq
  · exact ⟨fun _ => hQ hq, fun i hi => by cases hi⟩

theorem ends_terminate_ends {Q : Unit → Kernel → Prop} (hw : k.sched.Wf)
    (hp : k.currProc = some p) (hQ : ∀ k', P k'.core → Q () k')
    (hE : ∀ e k', P k'.core → e.Loads k'.core → E e k')
    (hended : P (k.core.setStatus p .terminated))
    (hP : ∀ q, (k.core.setStatus p .terminated).status q = .waiting →
      ∀ s', Looks ((k.core.setStatus p .terminated).setStatus q .ready) s' → P s') :
    Ends terminate k Q E := by
  have hnew := hw.curr p hp
  have hw' : (k.ending p).sched.Wf := by
    rw [sched_ending]
    exact hw.ended hnew
  have hd : P (k.ending p).core := by
    rwa [core_ending]
  rw [ends_terminate hp]
  refine ⟨fun _ => hQ _ hd, fun q hq => ?_⟩
  have hnq : (k.ending p).sched.status q ≠ .new := by
    rw [sched_ending, ne_eq, Sched.ended_status, update_eq_new hnew (by decide)]
    exact hw.parent p q hq
  refine ends_wakeup_woke hw' hnq (fun h => hQ _ h) hE hd ?_
  rw [core_ending]
  exact hP q

end

/-! ## System calls -/

/-- **A system call does one of the things that `Acts` lists.** -/
theorem handlerMain_acts (reads : Bool) (hw : k.sched.Wf) (hp : k.currProc = some p)
    (hP : ∀ s', Acts p k.core c s' → P s') :
    Ends (handlerMain reads c) k (fun _ k' => P k'.core)
      (fun e k' => P k'.core ∧ e.Loads k'.core) := by
  have hnew := hw.curr p hp
  have hq : P k.core := hP _ .quiet
  have hfault : ∀ {s' f}, P s' → P s' ∧ (Exit.fault f).Loads s' := by
    intro s' f hs'
    refine ⟨hs', ?_⟩
    rintro c ⟨⟩
  have hspawn : ∀ {i r parent mem}, c.Spawns → freeSlot k.procList = some i →
      P (k.spawn i r parent (k.procList i).terminal mem).core := by
    intro i r parent mem hc hi
    rw [core_spawn]
    exact hP _ (.spawned hc (freeSlot_eq_some hi))
  cases c with
  | logo | busy | unknown => exact (ends_pure _).mpr hq
  | fork =>
    rw [handlerMain, ends_doFork hp]
    exact ⟨fun _ => hq, fun i hi => hspawn trivial hi⟩
  | threadCreate tid func args =>
    rw [handlerMain, ends_doThreadCreate tid func args hp]
    exact ⟨fun _ => hq, fun i hi => hspawn trivial hi⟩
  | wait | threadJoin =>
    rw [handlerMain, ends_bind]
    exact ends_block_waits (hw.setStatus hnew (by decide) (by decide)) hp
      (fun _ h => (ends_pure _).mpr h) (fun _ _ => .intro) fun s' h => hP s' (.waits h)
  | exit =>
    rw [handlerMain, ends_bind]
    exact ends_terminate_ends hw hp (fun _ h => (ends_pure _).mpr h) (fun _ _ => .intro) (hP _ .ended)
      fun q hq s' h => hP s' (.endedWaking hq h)
  | threadExit =>
    rw [handlerMain, ends_bind, ends_doThreadExit]
    refine ends_terminate_ends hw hp (fun _ h => ⟨h, ?_⟩) (fun _ _ => .intro) (hP _ .ended)
      fun q hq s' h => hP s' (.endedWaking hq h)
    rintro c ⟨⟩
  | getPid =>
    rw [handlerMain, ends_sysGetPid hp]
    exact hq
  | threadSelf =>
    rw [handlerMain, ends_doThreadSelf hp]
    exact hq
  | getSem v =>
    rw [handlerMain, ends_doGetsem]
    exact ⟨fun _ => hq, fun s _ => hq⟩
  | freeSem id =>
    rw [handlerMain, ends_bind, ends_doFreesem]
    exact ⟨fun _ => hfault hq, fun s _ => (ends_pure _).mpr hq⟩
  | semP id =>
    rw [handlerMain, ends_bind, ends_doSemP id hp]
    refine ⟨fun _ => hfault hq, fun s _ => ⟨fun _ => hfault hq, fun _ =>
      ⟨fun _ => ?_, fun _ => (ends_pure _).mpr hq⟩⟩⟩
    have hs := sched_enqueue (k := k) (p := p) s _ rfl
    refine ends_block_waits (p := p) (by rw [hs]; exact hw.queued hnew s) hp
      (fun _ h => (ends_pure _).mpr h) (fun _ _ => .intro) ?_
    rw [core_enqueue]
    exact fun s' h => hP s' (.waits h)
  | semV id =>
    rw [handlerMain, ends_bind, ends_doSemV id hp]
    refine ⟨fun _ => hfault hq, fun s _ => ⟨fun _ => hfault hq, fun _ =>
      ⟨fun _ => ⟨fun _ => hfault hq, fun h hh => ?_⟩, fun _ => (ends_pure _).mpr hq⟩⟩⟩
    have hd := sched_dequeue (k := k) (p := p) s ((k.semList s).val + 1)
    refine ends_wakeup_woke (k := k.dequeue p s ((k.semList s).val + 1)) (P := P)
      (by rw [hd]; exact hw.setSem s (hw.next p)) (by rw [hd]; exact hw.head s h hh)
      (fun h => (ends_pure _).mpr h) (fun _ _ => .intro) hq fun hs s' h => hP s' (.woke hs h)
  | processReturn =>
    rw [handlerMain, ends_leaveProc hp, core_leaving]
    refine ⟨hP _ .leaves, ?_⟩
    rintro c ⟨⟩
  | file no =>
    simp only [handlerMain, sysFileHandlerMain, ends_bind, ends_ite, ends_enable, ends_pure]
    exact ⟨fun _ => hq, fun _ => ⟨fun _ => hq, fun _ => hq⟩⟩

theorem ends_handler_acts (t : Trap) (reads : Bool) (hw : k.sched.Wf) (hp : k.currProc = some p)
    (hP : ∀ s', Acts p ((k.core.record (.trap t)).save p (cdecl (entryStack t))) c s' → P s') :
    Ends (handler t c reads) k (fun _ k' => P k'.core)
      (fun e k' => P k'.core ∧ e.Loads k'.core) := by
  have hs : (k.entered p t c).sched = k.sched.emit (.call p c) := by
    rw [Kernel.entered, sched_emit, sched_save]
    rfl
  have hc : (k.entered p t c).core =
      (k.core.record (.trap t)).save p (cdecl (entryStack t)) := core_save _
  rw [ends_handler t reads hp]
  refine handlerMain_acts (k := k.entered p t c) reads ?_ hp ?_
  · rw [hs]
    exact hw.emit _
  · rwa [hc]

theorem handler_acts (t : Trap) (reads : Bool) (hw : k.sched.Wf) (hp : k.currProc = some p)
    (hP : ∀ s', Acts p ((k.core.record (.trap t)).save p (cdecl (entryStack t))) c s' → P s') :
    P (settle (handler t c reads k)).k.core := by
  rw [← ends_result (handler t c reads) fun r => P (settle r).k.core]
  refine (ends_handler_acts t reads hw hp hP).mono (fun a k' h => ?_) fun e k' h => ?_
  · rwa [settle_ok_core]
  · rw [settle, leave_core]
    exact h.1

/-! ## Interrupts -/

theorem resume_ok_core (m : Mode) (k : Kernel) : (resume m (.ok () k)).k.core = k.core := rfl

theorem pitHandler_none (t : Trap) (m : Mode) (hw : k.sched.Wf) (hn : k.currProc = none)
    (hidle : k.currPid = 0 → P (k.core.record (.trap t)))
    (hP : ∀ s', Looks (k.core.record (.trap t)) s' → P s') :
    P (resume m (pitHandler t k)).k.core := by
  set k' := (k.record (.trap t)).setFlag false with hk'
  rw [← ends_result (pitHandler t) fun r => P (resume m r).k.core]
  simp only [pitHandler, ends_bind, ends_record, ends_disable]
  rw [← hk', ends_pitHandlerMain_none _ (show k'.currProc = none from hn)]
  refine ⟨hidle, fun _ => ?_⟩
  refine ends_scheduleProc_looks (k := k'.clock) (P := P) hw (fun h => h) (fun e k' h _ => ?_) hP
  rwa [resume, leave_core]

theorem pitHandler_some (t : Trap) (m : Mode) (hw : k.sched.Wf) (hp : k.currProc = some p)
    (htick : 0 < k.core.tick p → P ((k.core.record (.trap t)).tickDown p))
    (hP : k.core.tick p = 0 →
      ∀ s', Looks ((k.core.record (.trap t)).save p (cdecl (entryStack t))) s' → P s') :
    P (resume m (pitHandler t k)).k.core := by
  set k' := (k.record (.trap t)).setFlag false with hk'
  rw [← ends_result (pitHandler t) fun r => P (resume m r).k.core]
  simp only [pitHandler, ends_bind, ends_record, ends_disable]
  rw [← hk', ends_pitHandlerMain_some _ (show k'.currProc = some p from hp)]
  have hc : (k'.clock.save p (cdecl (entryStack t))).core =
      (k.core.record (.trap t)).save p (cdecl (entryStack t)) := core_save _
  refine ⟨fun h0 => ?_, fun h0 => ?_⟩
  · rw [resume_ok_core, core_tick]
    exact htick h0
  · refine ends_scheduleProc_looks (k := k'.clock.save p (cdecl (entryStack t))) (P := P) ?_
      (fun h => h) (fun e k' h _ => ?_) ?_
    · rw [sched_save]
      exact hw
    · rwa [resume, leave_core]
    · rw [hc]
      exact hP h0

theorem keyboardHandler_core (t : Trap) (i : Option (Fin 3)) (m : Mode) :
    (resumeKey m (keyboardHandler t i k)).k.core = { k.core.record (.trap t) with
      currTerminal := i.elim k.currTerminal (·)
      tmpTerminal := i.elim k.tmpTerminal fun i =>
        if k.currProc = none then i else k.tmpTerminal } := by
  have hkey : ∀ k' : Kernel, (resumeKey m (.ok () k')).k.core = k'.core := by
    intro k'
    rw [resumeKey]
    split <;> rfl
  rw [← ends_result (keyboardHandler t i) fun r => (resumeKey m r).k.core = _]
  cases i with
  | none =>
    simp only [keyboardHandler, ends_bind, ends_record, ends_disable, ends_pure]
    exact hkey _
  | some i =>
    cases hc : k.currProc with
    | none =>
      simp only [keyboardHandler, changeTerminal, ends_bind, ends_record, ends_disable, ends_get,
        Kernel.setFlag_currProc, Kernel.record_currProc, hc, ends_modify, ends_enable, hkey]
      simp [Kernel.core, hc]
    | some p =>
      simp only [keyboardHandler, changeTerminal, ends_bind, ends_record, ends_disable, ends_get,
        Kernel.setFlag_currProc, Kernel.record_currProc, hc, ends_modify, ends_enable, hkey]
      simp [Kernel.core, hc]

/-! ## Steps -/

/-- **Every step of the machine has one of the effects.** -/
theorem step_effect {x y : Machine} {l : Label} (hw : x.view.Wf) (h : step x l = some y) :
    Effect x l y.k.core := by
  obtain ⟨m, k⟩ := x
  have hs : k.sched.Wf := hw.s
  have hserved : ∀ t c reads, Machine.call ⟨m, k⟩ l = some c → m.Takes t → k.currProc ≠ none →
      Effect ⟨m, k⟩ l (settle (handler t c reads k)).k.core := by
    intro t c reads hl ht hc
    obtain ⟨p, hp⟩ := Option.ne_none_iff_exists'.mp hc
    exact handler_acts t reads hs hp fun s' hs' => .called t hl hp hs' ht
  cases step_cases h with
  | call hm hl ht =>
    subst hm
    exact hserved _ _ _ hl (iff_of_true rfl ht) hw.fits
  | processReturn t hm =>
    subst hm
    refine hserved _ _ _ rfl (iff_of_false (by simp) ?_) hw.fits
    change KERNEL_CS ≠ USER_CS
    decide
  | timer t t' _ ht =>
    cases hp : k.currProc with
    | none =>
      exact pitHandler_none t' m hs hp (fun h0 => .idle t' hp h0 ht) fun s' h =>
        .started t' hp h ht
    | some p =>
      exact pitHandler_some t' m hs hp (fun h0 => .ticked t' hp h0 ht) fun h0 s' h =>
        .expired t' hp h0 h ht
  | keyboard t t' i _ ht =>
    rw [keyboardHandler_core]
    exact .key t' ht
  | finish t hm =>
    rw [toUser_core]
    subst hm
    exact .finished
  | readFile hm =>
    subst hm
    exact .readFile
  | create addr flag hm =>
    subst hm
    rw [← ends_result (procCreate USER_CS USER_DS addr flag) fun r =>
      Effect _ _ (shellResult r).k.core, ends_procCreate]
    refine ⟨fun _ => .failed, fun i hi => ?_⟩
    simp only [shellResult, core_spawn]
    exact .created (freeSlot_eq_some hi)
  | schedule hm =>
    subst hm
    rw [← ends_result scheduleProc fun r => Effect _ _ (shellResult r).k.core]
    refine ends_scheduleProc_looks (P := Effect ⟨.shell, k⟩ .schedule) hs (fun h => h)
      (fun e k' h _ => ?_) fun s' h => .scheduled h
    rwa [shellResult, leave_core]

end AdvancedOS
