import AdvancedOS.Sched.Wf
import AdvancedOS.Sem.Spec
import AdvancedOS.Thread.Spec

/-!
# The machine refines its scheduling view

* `sched_switchTo`, `sched_spawn`, …: what the changes of the kernel variables are in the view;
* `handlerMain_serves`: what a handler does is one of the cases of `Serves`;
* `Stepped`, `step_cases`: which code a step runs;
* `step_moves`: **a step of the machine is a step of its view.**
-/

namespace AdvancedOS

open Function (update)

variable {k : Kernel} {p q i h : Slot} {c : Call} {P : View → Prop}

/-! ## Changes of the kernel variables -/

theorem proj_update {β : Type} (f : Process → β) (t : Slot → Process) (i : Slot) (e : Process) :
    (fun j => f (update t i e j)) = update (fun j => f (t j)) i (f e) :=
  Function.comp_update f t i e

theorem sched_emit (e : Event) : (k.emit e).sched = k.sched.emit e := rfl

theorem sched_setProc (f : Process → Process) (hs : ∀ e, (f e).status = e.status)
    (hn : ∀ e, (f e).next = e.next) (hp : ∀ e, (f e).parent = e.parent)
    (hi : ∀ e, (f e).pid = e.pid) : (k.setProc i f).sched = k.sched := by
  simp only [Kernel.sched, Kernel.setProc, proj_update, hs, hn, hp, hi, Function.update_eq_self]

theorem sched_setStatus (st : Status) :
    (k.setStatus i st).sched = k.sched.setStatus i st := by
  simp only [Kernel.sched, Kernel.setStatus, Kernel.setProc, Sched.setStatus, proj_update,
    Function.update_eq_self]

@[simp] theorem sched_save (a : Regs) : (k.save p a).sched = k.sched :=
  sched_setProc (fun e => { e with regImg := savedImage a }) (fun _ => rfl) (fun _ => rfl)
    (fun _ => rfl) (fun _ => rfl)

@[simp] theorem sched_tick : (k.tick p).sched = k.sched :=
  sched_setProc (k := k.clock) (fun e => { e with tick := e.tick - 1 }) (fun _ => rfl)
    (fun _ => rfl) (fun _ => rfl) (fun _ => rfl)

theorem sched_spawn (r : Regs) (parent : Option Slot) (terminal : ℕ) (mem : Mem) :
    (k.spawn i r parent terminal mem).sched = k.sched.spawn i parent := by
  simp only [Kernel.sched, Kernel.spawn, Kernel.record, Sched.spawn, proj_update,
    Function.update_eq_self]

theorem sched_ending : (k.ending p).sched = k.sched.ended p := by
  rw [Kernel.ending, sched_emit, sched_setStatus]
  rfl

theorem unrun_of_forall {t : Slot → Status} (h : ∀ i, t i ≠ .running) : unrun t = t := by
  funext i
  exact if_neg (h i)

theorem unrun_of_forall_ne {t : Slot → Status} (hp : t p = .running)
    (h : ∀ i, i ≠ p → t i ≠ .running) : unrun t = update t p .ready := by
  funext i
  by_cases hi : i = p
  · subst hi
    simp [unrun, hp]
  · simp [unrun, hi, h i hi]

theorem sched_obtainSem (s : SemId) (v : ℤ) : (k.obtainSem s v).sched =
    (k.sched.setSem s { k.semList s with val := v, used := true }).emit (.gotSem s v) := rfl

theorem sched_releaseSem (s : SemId) : (k.releaseSem s).sched =
    k.sched.setSem s { k.semList s with used := false, head := none } := rfl

theorem sched_dequeue (s : SemId) (v : ℤ) : (k.dequeue p s v).sched =
    k.sched.setSem s { k.semList s with val := v, head := (k.procList p).next } := by
  simp only [Kernel.dequeue, Kernel.setVal, Kernel.setFlag, Kernel.setSem, Kernel.sched,
    Sched.setSem, Function.update_self, Function.update_idem]

theorem sched_enqueue (s : SemId) (v : ℤ) (hv : v = (k.semList s).val - 1) :
    ((k.enqueue p s v).sched).setStatus p .waiting = k.sched.queued p s := by
  subst hv
  simp only [Kernel.enqueue, Kernel.setVal, Kernel.setFlag, Kernel.setSem, Kernel.setProc,
    Kernel.emit, Kernel.sched, Sched.setStatus, Sched.queued, Function.update_self,
    Function.update_idem, proj_update, Function.update_eq_self]

/-- `p` leaves for the shell. -/
def Kernel.leaving (p : Slot) (k : Kernel) : Kernel :=
  (((k.setStatus p .terminated).emit (.terminated p)).setCurr none).setFlag true

theorem ends_leaveProc {Q : Word → Kernel → Prop} {E : Exit → Kernel → Prop}
    (hp : k.currProc = some p) : Ends leaveProc k Q E ↔ E .shell (k.leaving p) := by
  simp [leaveProc, ends_curr hp, Kernel.leaving]

theorem sched_leaving : (k.leaving p).sched = k.sched.left p := by
  have := sched_setStatus (k := k) (i := p) .terminated
  simp only [Sched.left]
  exact congrArg (fun s : Sched => { s with curr := none, trace := .terminated p :: s.trace }) this

/-- In a well-formed state the running process, if any, is the current one. -/
theorem sched_demote (hw : k.sched.Wf) (hc : k.currPid ≠ 0) :
    k.demote.sched = { k.sched with status := unrun k.sched.status } := by
  have hr : ∀ i, k.sched.status i = .running → k.currProc = some i := hw.running
  rw [Kernel.demote, if_pos hc]
  cases hp : k.currProc with
  | none =>
    have hn : ∀ i, k.sched.status i ≠ .running := by
      intro i hi
      simpa [hp] using hr i hi
    rw [unrun_of_forall hn]
  | some c =>
    have hn : ∀ i, i ≠ c → k.sched.status i ≠ .running := by
      intro i hic hi
      exact hic (Option.some.inj ((hr i hi).symm.trans hp))
    by_cases hs : k.sched.status c = .running
    · rw [unrun_of_forall_ne hs hn]
      exact (congrArg Kernel.sched (if_pos hs)).trans (sched_setStatus _)
    · have hn' : ∀ i, k.sched.status i ≠ .running := by
        intro i
        by_cases hic : i = c
        · rwa [hic]
        · exact hn i hic
      rw [unrun_of_forall hn']
      exact congrArg Kernel.sched (if_neg hs)

theorem sched_enterProc : (k.enterProc q).sched =
    { k.sched with status := update k.sched.status q .running, curr := some q } := by
  simp only [Kernel.sched, Kernel.enterProc, Kernel.setStatus, Kernel.setProc, Kernel.record,
    Kernel.setCurr, proj_update, Function.update_eq_self, Function.update_self,
    Function.update_idem]

/-- An entry has been allocated, so an identifier has been given. -/
theorem currPid_ne_zero (hw : k.sched.Wf) (hq : k.sched.status q ≠ .new) : k.currPid ≠ 0 := by
  intro h0
  have h1 := hw.pid_pos q hq
  have h2 := hw.pid_le q hq
  have h3 : k.sched.currPid.toNat = 0 := by
    rw [Kernel.sched_currPid, h0]
    rfl
  omega

theorem sched_decided (hn : pick k.statuses = none) :
    k.decided.sched = k.sched.emit (.picked k.sched.status none) := by
  rw [Kernel.decided, hn]
  rfl

theorem sched_switchTo (hw : k.sched.Wf) (hq : pick k.statuses = some q) :
    (k.decided.switchTo q).sched = k.sched.switchTo q := by
  have hd : k.decided.sched.Wf := hw.emit (.picked k.statuses (pick k.statuses))
  have hc : k.decided.currPid ≠ 0 := currPid_ne_zero (k := k) hw (pick_ne_new hq)
  rw [Kernel.switchTo, sched_enterProc, sched_demote hd hc, Sched.switchTo, ← hq]
  rfl

/-- `wakeup` finds the process that it is told, if that one waits. -/
theorem waitingSlot_pid (hw : k.sched.Wf) (hh : (k.procList h).status ≠ .new) :
    waitingSlot k.procList ((k.procList h).pid.setWidth 8) =
      if (k.procList h).status = .waiting then some h else none := by
  have hm : MAX_PROCESS = 20 := rfl
  have hlt : (k.procList h).pid.toNat < 256 := by
    have h1 := hw.pid_le h hh
    have h2 := hw.currPid_le
    simp only [Kernel.sched_pid] at h1
    omega
  have hpid : ((k.procList h).pid.setWidth 8).setWidth 32 = (k.procList h).pid := by
    apply BitVec.eq_of_toNat_eq
    simp only [BitVec.toNat_setWidth]
    omega
  have huniq : ∀ i, ((k.procList i).pid = (k.procList h).pid ∧ (k.procList i).status = .waiting) ↔
      i = h ∧ (k.procList h).status = .waiting := by
    intro i
    constructor
    · rintro ⟨hi, hs⟩
      have : i = h := hw.pid_inj i h (by simp [hs]) hh hi
      exact ⟨this, this ▸ hs⟩
    · rintro ⟨rfl, hs⟩
      exact ⟨rfl, hs⟩
  rw [waitingSlot, hpid]
  simp only [huniq]
  split_ifs with hs
  · simp only [hs, and_true]
    rw [List.find?_eq_some_iff_getElem]
    refine ⟨by simp, h, by simp, by simp, ?_⟩
    intro j hj
    simp only [List.getElem_finRange, Fin.cast_mk, decide_eq_false_iff_not, Bool.not_eq_eq_eq_not,
      Bool.not_true]
    intro e
    rw [← e] at hj
    simp at hj
  · simp [hs]

/-! ## How the code ends -/

theorem settle_back {a : Word} (hf : k.intFlag = false) (hp : k.currProc = some p) :
    (settle (.ok a k)).view = ⟨.user, k.sched.emit (.goesOn p)⟩ := by
  simp only [settle, hf, toUser, hp]
  rfl

theorem settle_tail {a : Word} (hf : k.intFlag = true) :
    (settle (.ok a k)).view = ⟨.tail .iret, k.sched⟩ := by
  simp only [settle, hf]
  rfl

theorem ends_scheduleProc_seeks {m : Mode} {Q : Unit → Kernel → Prop} (hw : k.sched.Wf)
    (hQ : P ⟨m, k.decided.sched⟩ → Q () k.decided) (hP : ∀ y, Seeks k.sched m y → P y) :
    Ends scheduleProc k Q (fun e k' => P (leave e k').view) := by
  rw [ends_scheduleProc]
  refine ⟨fun hn => hQ (hP _ ?_), fun q hq => hP _ ?_⟩
  · rw [sched_decided hn]
    exact Seeks.nobody hn
  · rw [leave, land]
    split
    · have := Seeks.user (s := k.sched) (m := m) hq
      rwa [← sched_switchTo hw hq] at this
    · have := Seeks.lost (s := k.sched) (m := m) hq
      rwa [← sched_switchTo hw hq] at this

theorem ends_block_seeks {Q : Unit → Kernel → Prop} (hw : (k.sched.setStatus p .waiting).Wf)
    (hp : k.currProc = some p)
    (hQ : ∀ k', k'.intFlag = true → P ⟨.tail .iret, k'.sched⟩ → Q () k')
    (hP : ∀ y, Seeks (k.sched.setStatus p .waiting) (.tail .iret) y → P y) :
    Ends block k Q (fun e k' => P (leave e k').view) := by
  have hs : ((k.setFlag false).setStatus p .waiting).sched = k.sched.setStatus p .waiting :=
    sched_setStatus _
  have := ends_scheduleProc_seeks (k := (k.setFlag false).setStatus p .waiting)
    (m := .tail .iret) (Q := fun _ k' => Q () (k'.setFlag true)) (by rwa [hs])
    (fun h => hQ _ rfl h) (by rwa [hs])
  rw [ends_block hp]
  rwa [ends_scheduleProc] at this

theorem ends_wakeup_seeks {m : Mode} {Q : Unit → Kernel → Prop} (hw : k.sched.Wf)
    (hh : k.sched.status h ≠ .new)
    (hQ : k.sched.status h ≠ .waiting → Q () (k.setFlag true))
    (hP : k.sched.status h = .waiting → ∀ y, Seeks (k.sched.woke h) m y → P y) :
    Ends (wakeup ((k.procList h).pid.setWidth 8)) k Q (fun e k' => P (leave e k').view) := by
  rw [ends_wakeup, waitingSlot_pid hw hh]
  split_ifs with hs
  · refine ⟨fun hn => hn.elim, ?_⟩
    rintro i ⟨⟩ q hq
    have hsched : (((k.setFlag false).setStatus h .ready).emit (.woken h)).sched =
        k.sched.woke h := by
      rw [sched_emit, sched_setStatus]
      rfl
    have := ends_scheduleProc_seeks (k := ((k.setFlag false).setStatus h .ready).emit (.woken h))
      (m := m) (P := P) (Q := fun _ _ => True) (by rw [hsched]; exact hw.woke hh)
      (fun _ => trivial) (by rw [hsched]; exact hP hs)
    rw [ends_scheduleProc] at this
    exact this.2 q hq
  · exact ⟨fun _ => hQ hs, fun i hi => by cases hi⟩

theorem ends_terminate_seeks {m : Mode} {Q : Unit → Kernel → Prop} (hw : k.sched.Wf)
    (hp : k.currProc = some p)
    (hQ : (∀ q, k.sched.parent p = some q → (k.sched.ended p).status q ≠ .waiting) →
      ∀ k', k'.intFlag = true → k'.sched = k.sched.ended p → Q () k')
    (hP : ∀ q, k.sched.parent p = some q → (k.sched.ended p).status q = .waiting →
      ∀ y, Seeks ((k.sched.ended p).woke q) m y → P y) :
    Ends terminate k Q (fun e k' => P (leave e k').view) := by
  have hnew := hw.curr p hp
  have hw' : (k.ending p).sched.Wf := by
    rw [sched_ending]
    exact hw.ended hnew
  rw [ends_terminate hp]
  refine ⟨fun hn => hQ ?_ _ rfl sched_ending, fun q hq => ?_⟩
  · intro q hq
    simp [hn] at hq
  · have hq' : k.sched.parent p = some q := hq
    have hnq : (k.ending p).sched.status q ≠ .new := by
      rw [sched_ending, ne_eq, Sched.ended_status, update_eq_new hnew (by decide)]
      exact hw.parent p q hq'
    refine ends_wakeup_seeks (m := m) hw' hnq (fun hs => hQ ?_ _ rfl sched_ending) ?_
    · intro q' hq''
      rw [hq'] at hq''
      cases hq''
      rwa [← sched_ending]
    · rw [sched_ending]
      exact hP q hq'

/-! ## System calls -/

theorem freeSlot_eq_none (hn : freeSlot k.procList = none) (i : Slot) :
    k.sched.status i ≠ .new := by
  have := List.find?_eq_none.mp hn i (List.mem_finRange i)
  simpa using this

theorem freeSlot_eq_some (hi : freeSlot k.procList = some i) : k.sched.status i = .new := by
  have := List.find?_some hi
  simpa using this

theorem spawned_serves (hp : k.currProc = some p) {r : Regs} {mem : Mem}
    {terminal : ℕ} {a : Word} (hc : c.Spawns) (hi : freeSlot k.procList = some i) :
    Serves p k.sched c (settle (.ok a (k.spawn i r (some p) terminal mem))).view := by
  rw [settle_back rfl (show (k.spawn i r (some p) terminal mem).currProc = some p from hp),
    sched_spawn]
  exact .spawned hc (freeSlot_eq_some hi)

theorem settled_tail {k' : Kernel} (a : Word) (hk' : k'.intFlag = true)
    (h : P ⟨.tail .iret, k'.sched⟩) : P (settle (.ok a k')).view := by
  rwa [settle_tail hk']

theorem semP_serves (reads : Bool) (id : ℤ) (hw : k.sched.Wf) (hp : k.currProc = some p)
    (hP : ∀ y, Serves p k.sched (.semP id) y → P y) :
    Ends (handlerMain reads (.semP id)) k (fun a k' => P (settle (.ok a k')).view)
      (fun e k' => P (leave e k').view) := by
  rw [handlerMain, ends_bind, ends_doSemP id hp]
  refine ⟨fun _ => hP _ (.badSemP (by decide)), ?_⟩
  rintro s rfl
  refine ⟨fun _ => hP _ (.badSemP (by decide)), fun _ => ⟨fun hv => ?_, fun hv => ?_⟩⟩
  · have hq := sched_enqueue (k := k) (p := p) s _ rfl
    have hw' : ((k.enqueue p s ((k.semList s).val - 1)).sched.setStatus p .waiting).Wf := by
      rw [hq]
      exact hw.queued (hw.curr p hp) s
    refine ends_block_seeks (p := p) hw' hp
      (fun k' hk' h => (ends_pure _).mpr (settled_tail 0 rfl h)) fun y hy => ?_
    rw [hq] at hy
    refine hP y (.blocked ?_ hy)
    simp only [Kernel.sched_sem]
    omega
  · refine (ends_pure _).mpr (settled_tail 0 rfl (hP _ (.taken ?_)))
    simp only [Kernel.sched_sem]
    omega

theorem semV_serves (reads : Bool) (id : ℤ) (hw : k.sched.Wf) (hp : k.currProc = some p)
    (hP : ∀ y, Serves p k.sched (.semV id) y → P y) :
    Ends (handlerMain reads (.semV id)) k (fun a k' => P (settle (.ok a k')).view)
      (fun e k' => P (leave e k').view) := by
  rw [handlerMain, ends_bind, ends_doSemV id hp]
  refine ⟨fun _ => hP _ (.badSemV (by decide)), ?_⟩
  rintro s rfl
  refine ⟨fun _ => hP _ (.badSemV (by decide)),
    fun _ => ⟨fun hv => ⟨fun hn => ?_, ?_⟩, fun hv => ?_⟩⟩
  · exact hP _ (.headless (by simp only [Kernel.sched_sem]; omega) hn)
  · intro h hh
    have hv' : (k.sched.sem s).val < 0 := by
      simp only [Kernel.sched_sem]
      omega
    have hd := sched_dequeue (k := k) (p := p) s ((k.semList s).val + 1)
    have hw' : (k.dequeue p s ((k.semList s).val + 1)).sched.Wf := by
      rw [hd]
      exact hw.setSem s (hw.next p)
    refine ends_wakeup_seeks (m := .tail .iret) (h := h) hw' ?_ ?_ ?_
    · rw [hd]
      exact hw.head s h hh
    · intro hs
      refine (ends_pure _).mpr (settled_tail 0 rfl ?_)
      rw [hd] at hs
      exact hd ▸ hP _ (.missed hv' hh hs)
    · rw [hd]
      exact fun hs y hy => hP y (.wakes hv' hh hs hy)
  · refine (ends_pure _).mpr (settled_tail 0 rfl (hP _ (.released ?_)))
    simp only [Kernel.sched_sem]
    omega

/-- **A system call does one of the things that `Serves` lists.** -/
theorem handlerMain_serves (reads : Bool) (hw : k.sched.Wf) (hp : k.currProc = some p)
    (hf : k.intFlag = false) (hP : ∀ y, Serves p k.sched c y → P y) :
    Ends (handlerMain reads c) k (fun a k' => P (settle (.ok a k')).view)
      (fun e k' => P (leave e k').view) := by
  have hnew := hw.curr p hp
  have hback : ∀ (k' : Kernel) (a : Word), k'.intFlag = false → k'.currProc = some p →
      P ⟨.user, k'.sched.emit (.goesOn p)⟩ → P (settle (.ok a k')).view := by
    intro k' a hf' hp' h
    rwa [settle_back hf' hp']
  have hcall : ∀ (k' : Kernel) (a : Word), k'.intFlag = true → P ⟨.tail .iret, k'.sched⟩ →
      P (settle (.ok a k')).view := fun _ a => settled_tail a
  cases c with
  | logo | busy | unknown =>
    exact (ends_pure _).mpr (hback k 0 hf hp (hP _ (.quiet trivial)))
  | fork =>
    rw [handlerMain, ends_doFork hp]
    refine ⟨fun hn => hcall _ _ rfl (hP _ (.full trivial (freeSlot_eq_none hn))), ?_⟩
    exact fun i hi => hP _ (spawned_serves hp trivial hi)
  | threadCreate tid func args =>
    rw [handlerMain, ends_doThreadCreate tid func args hp]
    refine ⟨fun hn => hcall _ _ rfl (hP _ (.full trivial (freeSlot_eq_none hn))), ?_⟩
    exact fun i hi => hP _ (spawned_serves hp trivial hi)
  | wait =>
    rw [handlerMain, ends_bind]
    exact ends_block_seeks (hw.setStatus hnew (by decide) (by decide)) hp
      (fun k' hk' h => (ends_pure _).mpr (hcall k' 0 hk' h))
      fun y hy => hP y (.waits trivial hy)
  | threadJoin tid =>
    rw [handlerMain, ends_bind]
    exact ends_block_seeks (hw.setStatus hnew (by decide) (by decide)) hp
      (fun k' hk' h => (ends_pure _).mpr (hcall k' 0 hk' h))
      fun y hy => hP y (.waits trivial hy)
  | exit =>
    rw [handlerMain, ends_bind]
    refine ends_terminate_seeks hw hp (fun hq k' hk' hs => (ends_pure _).mpr (hcall k' 0 hk' ?_))
      fun q hq hs y hy => hP y (.endsWaking trivial hq hs hy)
    rw [hs]
    exact hP _ (.ends trivial hq)
  | threadExit =>
    rw [handlerMain, ends_bind, ends_doThreadExit]
    refine ends_terminate_seeks hw hp (fun hq k' hk' hs => ?_)
      fun q hq hs y hy => hP y (.endsWaking trivial hq hs hy)
    have := hP _ (.ends (c := .threadExit) trivial hq)
    rwa [← hs] at this
  | getPid =>
    rw [handlerMain, ends_sysGetPid hp]
    exact hback k _ hf hp (hP _ (.quiet trivial))
  | threadSelf =>
    rw [handlerMain, ends_doThreadSelf hp]
    exact hback k _ hf hp (hP _ (.quiet trivial))
  | getSem v =>
    rw [handlerMain, ends_doGetsem]
    refine ⟨fun hn => hback k _ hf hp (hP _ (.noSem hn)), fun s hs => ?_⟩
    refine hback _ _ hf hp ?_
    rw [sched_obtainSem]
    exact hP _ (.gotSem hs)
  | freeSem id =>
    rw [handlerMain, ends_bind, ends_doFreesem]
    refine ⟨fun _ => hP _ .badFreeSem, ?_⟩
    rintro s rfl
    refine (ends_pure _).mpr (hback _ 0 hf hp ?_)
    rw [sched_releaseSem]
    exact hP _ .freed
  | semP id => exact semP_serves reads id hw hp hP
  | semV id => exact semV_serves reads id hw hp hP
  | processReturn =>
    rw [handlerMain, ends_leaveProc hp]
    have := hP _ .leaves
    rwa [← sched_leaving] at this
  | file no =>
    have hquiet : P (settle (.ok 0 k)).view := hback k 0 hf hp (hP _ (.quiet trivial))
    have hon : P (settle (.ok 0 (k.setFlag true))).view := hcall _ 0 rfl (hP _ .file)
    simp only [handlerMain, sysFileHandlerMain, ends_bind, ends_ite, ends_enable, ends_pure]
    exact ⟨fun _ => hon, fun _ => ⟨fun _ => hon, fun _ => hquiet⟩⟩

/-- The kernel variables when the C part of a handler is called. -/
def Kernel.entered (p : Slot) (t : Trap) (c : Call) (k : Kernel) : Kernel :=
  (((k.record (.trap t)).setFlag false).save p (cdecl (entryStack t))).emit (.call p c)

theorem ends_handler (t : Trap) (reads : Bool) {Q : Word → Kernel → Prop}
    {E : Exit → Kernel → Prop} (hp : k.currProc = some p) :
    Ends (handler t c reads) k Q E ↔ Ends (handlerMain reads c) (k.entered p t c) Q E := by
  simp [handler, ends_saveProc, hp, Kernel.entered]

theorem handler_serves (t : Trap) (reads : Bool) (hw : k.sched.Wf) (hp : k.currProc = some p)
    (hP : ∀ y, Serves p (k.sched.emit (.call p c)) c y → P y) :
    P (settle (handler t c reads k)).view := by
  have hs : (k.entered p t c).sched = k.sched.emit (.call p c) := by
    rw [Kernel.entered, sched_emit, sched_save]
    rfl
  rw [← ends_result (handler t c reads) fun r => P (settle r).view, ends_handler t reads hp]
  refine handlerMain_serves reads ?_ hp rfl ?_
  · rw [hs]
    exact hw.emit _
  · rwa [hs]

/-! ## Interrupts -/

theorem pitHandler_seeks (t : Trap) (m : Mode) (hw : k.sched.Wf) (hidle : P ⟨m, k.sched⟩)
    (hP : ∀ y, Seeks k.sched m y → P y) : P (resume m (pitHandler t k)).view := by
  rw [← ends_result (pitHandler t) fun r => P (resume m r).view]
  set k' := (k.record (.trap t)).setFlag false with hk'
  simp only [pitHandler, ends_bind, ends_record, ends_disable]
  cases hc : k.currProc with
  | none =>
    rw [← hk', ends_pitHandlerMain_none _ (show k'.currProc = none from hc)]
    exact ⟨fun _ => hidle, fun _ => ends_scheduleProc_seeks (k := k'.clock) hw id hP⟩
  | some p =>
    rw [← hk', ends_pitHandlerMain_some _ (show k'.currProc = some p from hc)]
    refine ⟨fun _ => ?_, fun _ => ends_scheduleProc_seeks ?_ id ?_⟩
    · change P ⟨m, (k'.tick p).sched⟩
      rwa [sched_tick]
    · rw [sched_save]
      exact hw
    · rw [sched_save]
      exact hP

theorem keyboardHandler_eq (t : Trap) (i : Option (Fin 3)) (k : Kernel) : ∃ b x y,
    keyboardHandler t i k = .ok () { (k.record (.trap t)).setFlag b with
      currTerminal := x
      tmpTerminal := y } := by
  cases i with
  | none => exact ⟨false, k.currTerminal, k.tmpTerminal, rfl⟩
  | some i =>
    cases hc : k.currProc with
    | none =>
      refine ⟨true, i, i, ?_⟩
      rw [← ends_result (keyboardHandler t (some i)) fun r => r = .ok () _]
      simp [keyboardHandler, changeTerminal, hc, Kernel.setFlag]
    | some p =>
      refine ⟨true, i, k.tmpTerminal, ?_⟩
      rw [← ends_result (keyboardHandler t (some i)) fun r => r = .ok () _]
      simp [keyboardHandler, changeTerminal, hc, Kernel.setFlag]

theorem keyboardHandler_idle (t : Trap) (i : Option (Fin 3)) (m : Mode) (hidle : P ⟨m, k.sched⟩)
    (huser : m = .user → P ⟨.tail .iret, k.sched⟩) :
    P (resumeKey m (keyboardHandler t i k)).view := by
  have hkey : ∀ k' : Kernel, k'.sched = k.sched → P (resumeKey m (.ok () k')).view := by
    intro k' hk'
    rw [resumeKey]
    split_ifs with h
    · change P ⟨.tail .iret, k'.sched⟩
      rw [hk']
      exact huser h.2
    · change P ⟨m, k'.sched⟩
      rwa [hk']
  obtain ⟨b, x, y, he⟩ := keyboardHandler_eq t i k
  rw [he]
  exact hkey _ rfl

/-! ## Steps -/

/-- `t` is a trap of the mode `m`: it comes from ring 3 in ring-3 code only. -/
def Mode.Takes (m : Mode) (t : Trap) : Prop := m = .user ↔ t.cpu.cs = USER_CS

/-- The steps in the mode `m`, by the code that runs. -/
inductive Stepped (m : Mode) (k : Kernel) : Label → Machine → Prop
  | call {l : Label} {t : Trap} {c : Call} {reads : Bool} : m = .user →
    Machine.call ⟨m, k⟩ l = some c → t.cpu.cs = USER_CS →
      Stepped m k l (settle (handler t c reads k))
  | processReturn (t : Trap) : m = .tail .processReturn →
    Stepped m k (.finish t) (settle (handler t.processReturn .processReturn false k))
  | timer (t t' : Trap) : m.Live → m.Takes t' →
    Stepped m k (.timer t) (resume m (pitHandler t' k))
  | keyboard (t t' : Trap) (i : Option (Fin 3)) : m.Live → m.Takes t' →
    Stepped m k (.keyboard t i) (resumeKey m (keyboardHandler t' i k))
  | finish (t : Trap) : m = .tail .iret → Stepped m k (.finish t) (toUser k)
  | readFile : m = .shell → Stepped m k .readFile ⟨.shell, k.setFlag true⟩
  | create (addr flag : Word) : m = .shell →
    Stepped m k (.create addr flag) (shellResult (procCreate USER_CS USER_DS addr flag k))
  | schedule : m = .shell → Stepped m k .schedule (shellResult (scheduleProc k))

/-- **Every step runs one of the handlers, or is one of the shell.** -/
theorem step_cases {m : Mode} {y : Machine} {l : Label} (h : step ⟨m, k⟩ l = some y) :
    Stepped m k l y := by
  have hk : ∀ t : Trap, t.kernel.cpu.cs ≠ USER_CS := fun t => by
    change KERNEL_CS ≠ USER_CS
    decide
  cases m with
  | user =>
    cases l with
    | int80 t | int81 t | int82 t reads =>
      cases h
      exact .call rfl rfl rfl
    | timer t =>
      cases h
      exact .timer t _ trivial (iff_of_true rfl rfl)
    | keyboard t i =>
      cases h
      exact .keyboard t _ i trivial (iff_of_true rfl rfl)
    | finish | readFile | create | schedule => cases h
  | tail a =>
    cases l with
    | timer t =>
      cases h
      exact .timer t _ trivial (iff_of_false (by simp) (hk t))
    | keyboard t i =>
      cases h
      exact .keyboard t _ i trivial (iff_of_false (by simp) (hk t))
    | finish t =>
      cases a with
      | iret =>
        cases h
        exact .finish t rfl
      | processReturn =>
        cases h
        exact .processReturn t rfl
    | int80 | int81 | int82 | readFile | create | schedule => cases a <;> cases h
  | shell =>
    cases l with
    | timer t =>
      obtain ⟨-, h⟩ := Option.ite_none_right_eq_some.mp h
      cases h
      exact .timer t _ trivial (iff_of_false (by simp) (hk t))
    | keyboard t i =>
      obtain ⟨-, h⟩ := Option.ite_none_right_eq_some.mp h
      cases h
      exact .keyboard t _ i trivial (iff_of_false (by simp) (hk t))
    | readFile =>
      cases h
      exact .readFile rfl
    | create addr flag =>
      cases h
      exact .create addr flag rfl
    | schedule =>
      cases h
      exact .schedule rfl
    | int80 | int81 | int82 | finish => cases h
  | lost => cases l <;> cases h
  | fault f => cases l <;> cases h

theorem mode_of_create {x y : Machine} {addr flag : Word}
    (he : step x (.create addr flag) = some y) : x.mode = .shell := by
  obtain ⟨m, k⟩ := x
  cases step_cases he with
  | call hm hc _ => cases hc
  | create addr flag hm => exact hm

theorem mode_of_schedule {x y : Machine} (he : step x .schedule = some y) : x.mode = .shell := by
  obtain ⟨m, k⟩ := x
  cases step_cases he with
  | call hm hc _ => cases hc
  | schedule hm => exact hm

theorem step_moves {x y : Machine} {l : Label} (hw : x.view.Wf) (h : step x l = some y) :
    Moves x.view (x.call l) y.view := by
  obtain ⟨m, k⟩ := x
  have hs : k.sched.Wf := hw.s
  have hserved : ∀ t c reads, m = .user ∨ m = .tail .processReturn ∧ c = .processReturn →
      Moves ⟨m, k.sched⟩ (some c) (settle (handler t c reads k)).view := by
    intro t c reads hm
    have hc : ∃ p, k.currProc = some p := by
      rw [← Option.ne_none_iff_exists']
      rcases hm with rfl | ⟨rfl, -⟩ <;> exact hw.fits
    obtain ⟨p, hp⟩ := hc
    exact handler_serves t reads hs hp fun y hy => .served hm hp hy
  cases step_cases h with
  | call hm hc _ =>
    rw [hc]
    exact hserved _ _ _ (.inl hm)
  | processReturn t hm =>
    subst hm
    exact hserved _ _ _ (.inr ⟨rfl, rfl⟩)
  | timer t t' hm _ =>
    exact pitHandler_seeks (P := Moves ⟨m, k.sched⟩ none) t' m hs (.idle (.inl rfl))
      fun y hy => .sought hm hy
  | keyboard t t' i _ =>
    exact keyboardHandler_idle (P := Moves ⟨m, k.sched⟩ none) t' i m (.idle (.inl rfl))
      fun hm => .idle (.inr ⟨hm, rfl⟩)
  | finish t hm =>
    subst hm
    obtain ⟨p, hp⟩ := Option.ne_none_iff_exists'.mp hw.fits
    have huser : (toUser k).view = ⟨.user, k.sched.emit (.goesOn p)⟩ := by
      rw [toUser, show k.currProc = some p from hp]
      rfl
    rw [huser]
    exact .finished hp
  | readFile hm =>
    subst hm
    exact .idle (.inl rfl)
  | create addr flag hm =>
    subst hm
    rw [← ends_result (procCreate USER_CS USER_DS addr flag) fun r =>
      Moves _ _ (shellResult r).view, ends_procCreate]
    refine ⟨fun hn => .failed (freeSlot_eq_none hn), fun i hi => ?_⟩
    simp only [shellResult, Machine.view, sched_spawn]
    exact .created (freeSlot_eq_some hi)
  | schedule hm =>
    subst hm
    rw [← ends_result scheduleProc fun r => Moves _ _ (shellResult r).view]
    exact ends_scheduleProc_seeks (m := .shell) hs id fun y hy => .sought trivial hy

end AdvancedOS
