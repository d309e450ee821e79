import AdvancedOS.Machine.Reach

/-!
# Register images

The image of a process is written by `save_proc`, by `proc_create`, `do_fork` and
`do_thread_create`, and read by `proc_switch`. `save_proc` trusts that the interrupt came from
ring 3.

* `imageOf`, `Sound`: the image that the history gives to a process, and what makes a history sound;
* `Kernel.Framed`: the images are those of a sound history;
* `handlerMain_framed`: **no system call breaks this**;
* `saved_from_user`: **if the steps lead to `save_proc` from ring 3 only, every image is that of an
  interrupted program**; `saved_in_tail`: other steps save a frame of the kernel;
* `restartProc_savedImage`: **what was saved comes back into the registers that it came from.**
-/

namespace AdvancedOS

variable {k k' : Kernel} {p q i : Slot} {r : Regs} {tr : List FrameEvent}

/-- The image that the history gives to `p`: that of the last `save_proc` for `p`, or the one it was
created with. -/
def imageOf (p : Slot) : List FrameEvent → Option Regs
  | [] => none
  | .saved q _ r :: tr => if q = p then some r else imageOf p tr
  | .created q r :: tr => if q = p then some r else imageOf p tr
  | .trap _ :: tr => imageOf p tr
  | .restarted _ _ :: tr => imageOf p tr

/-- Images are saved from ring 3 only, new images are those of ring 3, and what `restart_proc` loads
is the image that the history gives. -/
def Sound : List FrameEvent → Prop
  | [] => True
  | .saved _ a r :: tr => (r = savedImage a ∧
      ∃ t tr', tr = .trap t :: tr' ∧ a = cdecl (entryStack t) ∧ t.cpu.cs = USER_CS) ∧ Sound tr
  | .created _ r :: tr => r.cs = USER_CS ∧ Sound tr
  | .restarted p st :: tr => (∃ r, imageOf p tr = some r ∧ st = r.args) ∧ Sound tr
  | .trap _ :: tr => Sound tr

theorem Sound.of_append : ∀ later : List FrameEvent, Sound (later ++ tr) → Sound tr
  | [], h => h
  | e :: later, h => by
    cases e with
    | trap => exact Sound.of_append later h
    | saved | created | restarted => exact Sound.of_append later h.2

theorem cdecl_entryStack (t : Trap) (h : t.cpu.cs = USER_CS) : cdecl (entryStack t) =
    { gs := t.cpu.gs, fs := t.cpu.fs, es := t.cpu.es, ds := t.cpu.ds, edi := t.cpu.edi,
      esi := t.cpu.esi, ebp := t.cpu.ebp, esp := t.kesp, ebx := t.cpu.ebx, edx := t.cpu.edx,
      ecx := t.cpu.ecx, eax := t.cpu.eax, eip := t.cpu.eip, cs := t.cpu.cs,
      eflags := t.cpu.eflags, userEsp := t.cpu.esp, ss := t.cpu.ss } := by
  have hu : isUser t.cpu.cs = true := by
    rw [h]
    decide
  simp [cdecl, param, entryStack, pusha, interrupt, hu]

theorem Sound.imageOf_cs (h : Sound tr) (hr : imageOf p tr = some r) : r.cs = USER_CS := by
  induction tr with
  | nil => cases hr
  | cons e tr ih =>
    cases e with
    | trap t => exact ih h hr
    | restarted q st => exact ih h.2 hr
    | created q r' =>
      rw [imageOf] at hr
      split_ifs at hr with hq
      · cases hr
        exact h.1
      · exact ih h.2 hr
    | saved q a r' =>
      rw [imageOf] at hr
      split_ifs at hr with hq
      · cases hr
        obtain ⟨rfl, t, -, -, rfl, ht⟩ := h.1
        rw [cdecl_entryStack t ht]
        exact ht
      · exact ih h.2 hr

/-! ## The invariant -/

/-- The images of the allocated entries are those of a sound history. -/
structure Kernel.Framed (k : Kernel) : Prop where
  image : ∀ p, (k.procList p).status ≠ .new → imageOf p k.frames = some (k.procList p).regImg
  sound : Sound k.frames

namespace Kernel.Framed

theorem frame (h : k.Framed) (hf : k'.frames = k.frames)
    (hs : ∀ i, (k'.procList i).status ≠ .new → (k.procList i).status ≠ .new)
    (hr : ∀ i, (k'.procList i).regImg = (k.procList i).regImg) : k'.Framed where
  image i hi := by
    rw [hf, hr]
    exact h.image i (hs i hi)
  sound := by
    rw [hf]
    exact h.sound

theorem cs (h : k.Framed) (hp : (k.procList p).status ≠ .new) :
    (k.procList p).regImg.cs = USER_CS :=
  h.sound.imageOf_cs (h.image p hp)

theorem setProc (h : k.Framed) {f : Process → Process} (hf : ∀ e, (f e).regImg = e.regImg)
    (hs : (f (k.procList i)).status ≠ .new → (k.procList i).status ≠ .new) :
    (k.setProc i f).Framed := by
  refine h.frame rfl (fun j hj => ?_) fun j => setProc_regImg f hf j
  by_cases hji : j = i
  · subst hji
    rw [Kernel.setProc_procList, Function.update_self] at hj
    exact hs hj
  · rw [Kernel.setProc_procList, Function.update_of_ne hji] at hj
    exact hj

theorem setStatus (h : k.Framed) (hi : (k.procList i).status ≠ .new) (st : Status) :
    (k.setStatus i st).Framed :=
  h.setProc (fun _ => rfl) fun _ => hi

theorem same (h : k.Framed) (hp : k'.procList = k.procList) (hf : k'.frames = k.frames) :
    k'.Framed :=
  h.frame hf (fun i hi => by rwa [hp] at hi) fun i => by rw [hp]

theorem ending (h : k.Framed) (hp : (k.procList p).status ≠ .new) : (k.ending p).Framed := by
  have h1 : (k.setFlag false).Framed := h.same rfl rfl
  exact (h1.setStatus hp .terminated).same rfl rfl

theorem save {t : Trap} (h : k.Framed) (hp : (k.procList p).status ≠ .new)
    (ht : t.cpu.cs = USER_CS) (hf : ∃ tr, k.frames = .trap t :: tr) :
    (k.save p (cdecl (entryStack t))).Framed where
  image i hi := by
    by_cases hip : i = p
    · subst hip
      simp [Kernel.save, imageOf]
    · have := h.image i (by simpa [Kernel.save, hip] using hi)
      simpa [Kernel.save, imageOf, hip, Ne.symm hip] using this
  sound := by
    obtain ⟨tr, hf⟩ := hf
    exact ⟨⟨rfl, t, tr, hf, rfl, ht⟩, h.sound⟩

theorem spawn (h : k.Framed) (hr : r.cs = USER_CS) (parent : Option Slot) (terminal : ℕ)
    (mem : Mem) : (k.spawn i r parent terminal mem).Framed where
  image j hj := by
    by_cases hji : j = i
    · subst hji
      simp [Kernel.spawn, imageOf]
    · have := h.image j (by simpa [Kernel.spawn, hji] using hj)
      simpa [Kernel.spawn, imageOf, hji, Ne.symm hji] using this
  sound := ⟨hr, h.sound⟩

theorem demote (h : k.Framed) : k.demote.Framed := by
  unfold Kernel.demote
  split
  · split
    · exact h
    · split
      · rename_i hr
        exact h.setStatus (by simp [hr]) .ready
      · exact h
  · exact h

theorem switchTo (h : k.Framed) (hq : (k.procList q).status ≠ .new) : (k.switchTo q).Framed := by
  have hd : (k.demote.procList q).status ≠ .new := by
    unfold Kernel.demote
    split
    · split
      · exact hq
      · split
        · rename_i c _ _
          by_cases hqc : q = c
          · simp [Kernel.setStatus, hqc]
          · simpa [Kernel.setStatus, hqc] using hq
        · exact hq
    · exact hq
  have h1 : (k.demote.setProc q fun e => { e with tick := MAX_TICK }).Framed :=
    h.demote.setProc (fun _ => rfl) fun _ => hd
  have h2 := h1.setStatus (i := q) (by simpa using hd) .running
  exact ⟨h2.image, ⟨⟨_, h2.image q (by simp [Kernel.setStatus]), rfl⟩, h2.sound⟩⟩

theorem loadedCpu (h : k.Framed) (hq : (k.procList q).status ≠ .new) :
    isUser (k.loadedCpu q).cs = true := by
  have hu : isUser (k.procList q).regImg.cs = true := by
    rw [h.cs hq]
    decide
  rw [Kernel.loadedCpu, restartProc_args _ _ hu]
  exact hu

end Kernel.Framed

/-! ## The functions of the kernel -/

/-- If the process is resumed, it is resumed in ring 3. -/
def Exit.User (e : Exit) : Prop := ∀ c, e = .resumed c → isUser c.cs = true

theorem ends_scheduleProc_framed (h : k.Framed) :
    Ends scheduleProc k (fun _ k' => k'.Framed) (fun e k' => k'.Framed ∧ e.User) := by
  have hd : k.decided.Framed := h.same rfl rfl
  rw [ends_scheduleProc]
  refine ⟨fun _ => hd, fun q hq => ⟨hd.switchTo (pick_ne_new hq), ?_⟩⟩
  rintro c ⟨⟩
  exact hd.loadedCpu (pick_ne_new hq)

theorem ends_block_framed (h : k.Framed) (hp : k.currProc = some p)
    (hnew : (k.procList p).status ≠ .new) :
    Ends block k (fun _ k' => k'.Framed) (fun e k' => k'.Framed ∧ e.User) := by
  have h1 : (k.setFlag false).Framed := h.same rfl rfl
  have hs := ends_scheduleProc_framed (h1.setStatus hnew .waiting)
  rw [ends_scheduleProc] at hs
  rw [ends_block hp]
  exact ⟨fun hn => (hs.1 hn).same rfl rfl, hs.2⟩

theorem ends_wakeup_framed (h : k.Framed) (pid : BitVec 8) :
    Ends (wakeup pid) k (fun _ k' => k'.Framed) (fun e k' => k'.Framed ∧ e.User) := by
  rw [ends_wakeup]
  refine ⟨fun _ => h.same rfl rfl, fun i hi q hq => ?_⟩
  have hi' := List.find?_some hi
  simp only [Bool.decide_and, Bool.and_eq_true, decide_eq_true_eq] at hi'
  have h1 : (k.setFlag false).Framed := h.same rfl rfl
  have h2 : (((k.setFlag false).setStatus i .ready).emit (.woken i)).Framed :=
    (h1.setStatus (by simp [hi'.2]) .ready).same rfl rfl
  have hs := ends_scheduleProc_framed h2
  rw [ends_scheduleProc] at hs
  exact hs.2 q hq

theorem ends_terminate_framed (h : k.Framed) (hp : k.currProc = some p)
    (hnew : (k.procList p).status ≠ .new) :
    Ends terminate k (fun _ k' => k'.Framed) (fun e k' => k'.Framed ∧ e.User) := by
  have he := h.ending hnew
  rw [ends_terminate hp]
  refine ⟨fun _ => he.same rfl rfl, fun q _ => ?_⟩
  have hw := ends_wakeup_framed he (((k.ending p).procList q).pid.setWidth 8)
  rw [ends_wakeup] at hw ⊢
  exact ⟨fun hn => (hw.1 hn).same rfl rfl, hw.2⟩

theorem handlerMain_framed (c : Call) (reads : Bool) (h : k.Framed) (hp : k.currProc = some p)
    (hnew : (k.procList p).status ≠ .new) :
    Ends (handlerMain reads c) k (fun _ k' => k'.Framed) (fun e k' => k'.Framed ∧ e.User) := by
  have hcs := h.cs hnew
  have hfault : ∀ {k' : Kernel} {f : Fault}, k'.Framed → k'.Framed ∧ (Exit.fault f).User := by
    intro k' f hk'
    refine ⟨hk', ?_⟩
    rintro c ⟨⟩
  have hflag : ∀ b, (k.setFlag b).Framed := fun b => h.same rfl rfl
  have hpure : ∀ {k' : Kernel}, k'.Framed → Ends (pure 0 : Kern Word) k'
      (fun _ k' => k'.Framed) (fun e k' => k'.Framed ∧ e.User) :=
    fun hk' => (ends_pure _).mpr hk'
  cases c with
  | logo | busy | unknown => exact hpure h
  | fork =>
    rw [handlerMain, ends_doFork hp]
    exact ⟨fun _ => hflag true, fun i _ => h.spawn (r := forkImage _ _) hcs _ _ _⟩
  | threadCreate tid func args =>
    rw [handlerMain, ends_doThreadCreate tid func args hp]
    exact ⟨fun _ => hflag true, fun i _ => h.spawn (r := threadImage _ _ _) hcs _ _ _⟩
  | wait | threadJoin =>
    rw [handlerMain, ends_bind]
    exact (ends_block_framed h hp hnew).mono (fun _ _ => hpure) fun _ _ hk' => hk'
  | exit =>
    rw [handlerMain, ends_bind]
    exact (ends_terminate_framed h hp hnew).mono (fun _ _ => hpure) fun _ _ hk' => hk'
  | threadExit =>
    rw [handlerMain, ends_bind, ends_doThreadExit]
    refine (ends_terminate_framed h hp hnew).mono (fun _ k' hk' => ⟨hk', ?_⟩) fun _ _ hk' => hk'
    rintro c ⟨⟩
  | getPid =>
    rw [handlerMain, ends_sysGetPid hp]
    exact h
  | threadSelf =>
    rw [handlerMain, ends_doThreadSelf hp]
    exact h
  | getSem v =>
    rw [handlerMain, ends_doGetsem]
    exact ⟨fun _ => h, fun s _ => h.same rfl rfl⟩
  | freeSem id =>
    rw [handlerMain, ends_bind, ends_doFreesem]
    exact ⟨fun _ => hfault h, fun s _ => hpure (h.same rfl rfl)⟩
  | semP id =>
    rw [handlerMain, ends_bind, ends_doSemP id hp]
    refine ⟨fun _ => hfault (hflag false), fun s _ => ⟨fun _ => hfault (hflag false), fun _ =>
      ⟨fun _ => ?_, fun _ => hpure (h.same rfl rfl)⟩⟩⟩
    have hq : (k.enqueue p s ((k.semList s).val - 1)).Framed :=
      (h.setProc (i := p) (f := fun e => { e with next := (k.semList s).head }) (fun _ => rfl)
        fun hi => hi).same rfl rfl
    exact (ends_block_framed hq hp (by simpa [Kernel.enqueue, Kernel.setVal] using hnew)).mono
      (fun _ k' hk' => hpure (hk'.same rfl rfl)) fun _ _ hk' => hk'
  | semV id =>
    rw [handlerMain, ends_bind, ends_doSemV id hp]
    refine ⟨fun _ => hfault (hflag false), fun s _ => ⟨fun _ => hfault (hflag false), fun _ =>
      ⟨fun _ => ⟨fun _ => hfault (h.same rfl rfl), fun j _ => ?_⟩,
        fun _ => hpure (h.same rfl rfl)⟩⟩⟩
    have hq : (k.dequeue p s ((k.semList s).val + 1)).Framed := h.same rfl rfl
    exact (ends_wakeup_framed hq _).mono (fun _ k' hk' => hpure (hk'.same rfl rfl))
      fun _ _ hk' => hk'
  | processReturn =>
    rw [handlerMain, ends_leaveProc hp]
    refine ⟨(h.setStatus hnew .terminated).same rfl rfl, ?_⟩
    rintro c ⟨⟩
  | file no =>
    simp only [handlerMain, sysFileHandlerMain, ends_bind, ends_ite, ends_enable, ends_pure]
    exact ⟨fun _ => hflag true, fun _ => ⟨fun _ => hflag true, fun _ => h⟩⟩

/-! ## Steps -/

/-- The images are those of a sound history, and no process was resumed in ring 0. -/
structure Machine.Framed (m : Machine) : Prop where
  k : m.k.Framed
  mode : m.mode ≠ .lost

/-- `save_proc` is reached from ring 3 only: no time slice ends in the tail of a handler, and no
exited thread calls `user_process_return`. -/
def fromUser (m : Machine) (l : Label) : Prop :=
  match m.mode, l with
  | .tail _, .timer _ => ∃ p, m.k.currProc = some p ∧ 0 < (m.k.procList p).tick
  | .tail .processReturn, .finish _ => False
  | _, _ => True

instance (m : Machine) (l : Label) : Decidable (fromUser m l) := by
  unfold fromUser
  split <;> infer_instance

theorem toUser_framed (h : k.Framed) : (toUser k).Framed := by
  unfold toUser
  split
  · exact ⟨h.same rfl rfl, by simp⟩
  · exact ⟨h.same rfl rfl, by simp⟩

theorem leave_framed {e : Exit} (h : k.Framed ∧ e.User) : (leave e k).Framed := by
  cases e with
  | resumed c =>
    rw [leave, land, if_pos (h.2 c rfl)]
    exact toUser_framed h.1
  | shell | processReturn | fault => exact ⟨h.1, by simp [leave]⟩

theorem settle_framed {a : Word} (h : k.Framed) : (settle (.ok a k)).Framed := by
  rw [settle]
  split
  · exact ⟨h, by simp⟩
  · exact toUser_framed h

theorem handler_framed (t : Trap) (c : Call) (reads : Bool) (h : k.Framed)
    (hp : k.currProc = some p) (hnew : (k.procList p).status ≠ .new) (ht : t.cpu.cs = USER_CS) :
    (settle (handler t c reads k)).Framed := by
  have h1 : ((k.record (.trap t)).setFlag false).Framed := ⟨h.image, h.sound⟩
  have h2 : (k.entered p t c).Framed := (h1.save hnew ht ⟨_, rfl⟩).same rfl rfl
  rw [← ends_result (handler t c reads) fun r => (settle r).Framed, ends_handler t reads hp]
  refine (handlerMain_framed c reads h2 hp ?_).mono (fun _ _ => settle_framed)
    fun _ _ => leave_framed
  simpa [Kernel.entered, Kernel.save] using hnew

theorem pitHandler_framed (t : Trap) {m : Mode} (hm : m ≠ .lost) (h : k.Framed) (hw : k.sched.Wf)
    (hs : ∀ p, k.currProc = some p → (k.procList p).tick = 0 → t.cpu.cs = USER_CS) :
    (resume m (pitHandler t k)).Framed := by
  have hresume : ∀ {k' : Kernel}, k'.Framed → (resume m (.ok () k')).Framed :=
    fun hk' => ⟨hk'.same rfl rfl, hm⟩
  rw [← ends_result (pitHandler t) fun r => (resume m r).Framed]
  set k' := (k.record (.trap t)).setFlag false with hk'
  have h1 : k'.Framed := ⟨h.image, h.sound⟩
  have h2 : k'.clock.Framed := h1.same rfl rfl
  simp only [pitHandler, ends_bind, ends_record, ends_disable]
  cases hc : k.currProc with
  | none =>
    rw [← hk', ends_pitHandlerMain_none _ (show k'.currProc = none from hc)]
    exact ⟨fun _ => hresume h2, fun _ => (ends_scheduleProc_framed h2).mono (fun _ _ => hresume)
      fun _ _ => leave_framed⟩
  | some p =>
    rw [← hk', ends_pitHandlerMain_some _ (show k'.currProc = some p from hc)]
    refine ⟨fun _ => hresume (h2.setProc (fun _ => rfl) fun hi => hi), fun ht => ?_⟩
    exact (ends_scheduleProc_framed (h2.save (hw.curr p hc) (hs p hc ht) ⟨_, rfl⟩)).mono
      (fun _ _ => hresume) fun _ _ => leave_framed

theorem keyboardHandler_framed (t : Trap) (i : Option (Fin 3)) {m : Mode} (hm : m ≠ .lost)
    (h : k.Framed) : (resumeKey m (keyboardHandler t i k)).Framed := by
  have hkey : ∀ k' : Kernel, k'.Framed → (resumeKey m (.ok () k')).Framed := by
    intro k' hk'
    rw [resumeKey]
    split
    · exact ⟨hk', by simp⟩
    · exact ⟨hk'.same rfl rfl, hm⟩
  have h1 : (k.record (.trap t)).Framed := ⟨h.image, h.sound⟩
  obtain ⟨b, x, y, he⟩ := keyboardHandler_eq t i k
  rw [he]
  exact hkey _ (h1.same rfl rfl)

theorem create_framed (addr flag : Word) (h : k.Framed) :
    (shellResult (procCreate USER_CS USER_DS addr flag k)).Framed := by
  rw [← ends_result (procCreate USER_CS USER_DS addr flag) fun r => (shellResult r).Framed,
    ends_procCreate]
  refine ⟨fun _ => leave_framed (e := .fault .null) ⟨h.same rfl rfl, ?_⟩, fun i _ => ?_⟩
  · rintro c ⟨⟩
  · exact ⟨h.spawn (r := createdImage _ _ _ _ _) rfl _ _ _, by simp [shellResult]⟩

theorem schedule_framed (h : k.Framed) : (shellResult (scheduleProc k)).Framed := by
  rw [← ends_result scheduleProc fun r => (shellResult r).Framed]
  exact (ends_scheduleProc_framed h).mono (fun _ _ hk' => ⟨hk', by simp [shellResult]⟩)
    fun _ _ => leave_framed

/-- **Every step that saves in ring 3 only keeps the images sound.** -/
theorem step_framed {x y : Machine} {l : Label} (hw : x.view.Wf) (h : x.Framed)
    (hg : fromUser x l) (he : step x l = some y) : y.Framed := by
  obtain ⟨m, k⟩ := x
  have hk : k.Framed := h.k
  have hlost : m.Live → m ≠ .lost := by
    rintro hm rfl
    exact hm
  cases step_cases he with
  | call hm _ ht =>
    subst hm
    obtain ⟨p, hp⟩ := Option.ne_none_iff_exists'.mp hw.fits
    exact handler_framed _ _ _ hk hp (hw.s.curr p hp) ht
  | processReturn t hm =>
    subst hm
    exact hg.elim
  | timer t t' hm ht =>
    refine pitHandler_framed _ (hlost hm) hk hw.s fun q hq h0 => ?_
    cases m with
    | user => exact ht.mp rfl
    | tail a =>
      obtain ⟨p, hp, hpos⟩ := hg
      rw [hp] at hq
      cases hq
      exact absurd h0 hpos.ne'
    | shell =>
      rw [show k.currProc = none from hw.fits] at hq
      cases hq
    | lost | fault => exact hm.elim
  | keyboard t t' i hm => exact keyboardHandler_framed _ _ (hlost hm) hk
  | finish t hm => exact toUser_framed hk
  | readFile hm => exact ⟨hk.same rfl rfl, by simp⟩
  | create addr flag hm => exact create_framed addr flag hk
  | schedule hm => exact schedule_framed hk

theorem RunsTo.framed {m : Machine} (h : RunsTo fromUser m) : m.Framed := by
  refine h.invariant (I := Machine.Framed) (fun _ _ _ => ⟨⟨?_, trivial⟩, by simp [boot]⟩) ?_
  · intro p hp
    exact absurd rfl hp
  · exact fun x l y hw hx hg he => step_framed hw hx hg he

/-! ## Only ring-3 contexts are saved -/

/-- **If `save_proc` is reached from ring 3 only, every image is that of an interrupted program, and
no process is resumed from another one.** -/
theorem saved_from_user {m : Machine} (h : RunsTo fromUser m) :
    (∀ p a r later earlier, m.k.frames = later ++ .saved p a r :: earlier →
      ∃ t earlier', earlier = .trap t :: earlier' ∧ isUser t.cpu.cs = true ∧ r.cs = USER_CS ∧
        r.userEsp = t.cpu.esp ∧ r.ss = t.cpu.ss) ∧
      (∀ p st later earlier, m.k.frames = later ++ .restarted p st :: earlier →
        ∃ r, imageOf p earlier = some r ∧ st = r.args ∧ r.cs = USER_CS) ∧
      m.mode ≠ .lost := by
  have hF := h.framed
  refine ⟨fun p a r later earlier he => ?_, fun p st later earlier he => ?_, hF.mode⟩
  · have hs : Sound (.saved p a r :: earlier) :=
      Sound.of_append later (he ▸ hF.k.sound)
    obtain ⟨⟨rfl, t, tr, ht, rfl, hcs⟩, -⟩ := hs
    have hu : isUser t.cpu.cs = true := by
      rw [hcs]
      decide
    rw [cdecl_entryStack t hcs]
    exact ⟨t, tr, ht, hu, hcs, rfl, rfl⟩
  · have hs : Sound (.restarted p st :: earlier) :=
      Sound.of_append later (he ▸ hF.k.sound)
    obtain ⟨⟨r, hr, hst⟩, hs'⟩ := hs
    exact ⟨r, hr, hst, hs'.imageOf_cs hr⟩

/-- A program takes a unit of a mutex and is interrupted by the timer, once after the call and once
in its tail. -/
theorem saved_from_user_mutex : ∃ m : Machine, m.k.frames ≠ [] ∧
    (∀ p a r later earlier, m.k.frames = later ++ .saved p a r :: earlier →
      ∃ t earlier', earlier = .trap t :: earlier' ∧ isUser t.cpu.cs = true ∧ r.cs = USER_CS ∧
        r.userEsp = t.cpu.esp ∧ r.ss = t.cpu.ss) ∧
      (∀ p st later earlier, m.k.frames = later ++ .restarted p st :: earlier →
        ∃ r, imageOf p earlier = some r ∧ st = r.args ∧ r.cs = USER_CS) ∧
      m.mode ≠ .lost := by
  obtain ⟨m, hm, hP⟩ := RunsTo.of_exec (G := fromUser) (P := fun m => m.k.frames ≠ [])
    [.load, .schedule, .sys 20 1, .sys 21 0, .tick, .ret, .tick, .tick]
    (by decide +kernel) (by decide +kernel)
  exact ⟨m, hP, saved_from_user hm⟩

/-- The time slice ends in the tail of `do_sem_p`: a ring-0 frame is saved, and the process is
resumed from it. -/
theorem saved_in_tail : ∃ m : Machine, RunsTo (fun _ _ => True) m ∧ m.mode = .lost ∧
    ∃ p a r, .saved p a r ∈ m.k.frames ∧ r.cs = KERNEL_CS := by
  obtain ⟨m, hm, h1, h2⟩ := RunsTo.of_exec (G := fun _ _ => True)
    (P := fun m => m.mode = .lost ∧ m.k.frames.any (fun
      | .saved _ _ r => r.cs = KERNEL_CS
      | _ => false) = true)
    [.load, .schedule, .sys 20 1, .tick, .sys 21 0, .tick]
    (by decide +kernel) (by decide +kernel)
  obtain ⟨e, he, hcs⟩ := List.any_eq_true.mp h2
  cases e with
  | saved p a r => exact ⟨m, hm, h1, p, a, r, he, by simpa using hcs⟩
  | trap | created | restarted => cases hcs

/-! ## What comes back -/

theorem sel_sel (w : Word) : sel (w &&& 0xFFFF) = sel w := by
  simp [sel, BitVec.and_assoc]

/-- **`restart_proc` puts what was saved back into the registers it came from**; the selectors are
cut to 16 bits. -/
theorem restartProc_savedImage (t : Trap) (ht : t.cpu.cs = USER_CS) :
    restartProc {} (savedImage (cdecl (entryStack t))).args =
      { t.cpu with
        gs := sel t.cpu.gs, fs := sel t.cpu.fs, es := sel t.cpu.es, ds := sel t.cpu.ds } := by
  have hu : isUser t.cpu.cs = true := by
    rw [ht]
    decide
  rw [cdecl_entryStack t ht, restartProc_args _ _ hu]
  simp only [savedImage, sel_sel]

end AdvancedOS
