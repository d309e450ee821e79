import AdvancedOS.Machine.Effects
import AdvancedOS.Machine.Frames

/-!
# Context switches

If interrupts and system calls are taken in ring 3 only, a process gets back the registers that it
had when it left the processor.

* `lastRestarted`, `lastTrap`: which process runs, and the trap by which a process was interrupted
  last;
* `Rested`: the image of a process is that of its last trap;
* `Core.RestedBut`: the invariant, **every process but the one that runs is at rest**; `Effect.rested`: no
  step breaks it;
* `switch_transparent`: **context switches are transparent.**
-/

namespace AdvancedOS

open Function (update)

variable {p q i : Slot} {s s' : Core} {tr later mid earlier : List FrameEvent} {t : Trap} {r : Regs}
  {st : Stack} {o : Option Slot} {l : Label} {x y m : Machine} {c : Call}

/-! ## Histories -/

/-- The process that was resumed last. -/
def lastRestarted : List FrameEvent → Option Slot
  | [] => none
  | .restarted p _ :: _ => some p
  | .trap _ :: tr | .saved _ _ _ :: tr | .created _ _ :: tr => lastRestarted tr

/-- The last trap from ring 3 that was taken while `p` ran. -/
def lastTrap (p : Slot) : List FrameEvent → Option Trap
  | [] => none
  | .trap t :: tr =>
    if t.cpu.cs = USER_CS ∧ lastRestarted tr = some p then some t else lastTrap p tr
  | .saved _ _ _ :: tr | .created _ _ :: tr | .restarted _ _ :: tr => lastTrap p tr

/-- `p` has been saved since it was resumed last. -/
def Stopped (p : Slot) : List FrameEvent → Prop
  | [] => True
  | .saved q _ _ :: tr => q = p ∨ Stopped p tr
  | .restarted q _ :: tr => q ≠ p ∧ Stopped p tr
  | .trap _ :: tr | .created _ _ :: tr => Stopped p tr

/-- `p` has been saved since it was resumed last, and its image is that of its last trap. -/
structure Rested (p : Slot) (tr : List FrameEvent) : Prop where
  stopped : Stopped p tr
  image : ∀ t, lastTrap p tr = some t → imageOf p tr = some (savedImage (cdecl (entryStack t)))

/-- Every process was at rest when it was resumed. -/
def Resumed : List FrameEvent → Prop
  | [] => True
  | .restarted p _ :: tr => Rested p tr ∧ Resumed tr
  | .trap _ :: tr | .saved _ _ _ :: tr | .created _ _ :: tr => Resumed tr

theorem Resumed.of_append : ∀ later : List FrameEvent, Resumed (later ++ tr) → Resumed tr
  | [], h => h
  | e :: later, h => by
    cases e with
    | restarted => exact Resumed.of_append later h.2
    | trap | saved | created => exact Resumed.of_append later h

theorem lastTrap_cs (h : lastTrap p tr = some t) : t.cpu.cs = USER_CS := by
  induction tr with
  | nil => cases h
  | cons e tr ih =>
    cases e with
    | trap t' =>
      rw [lastTrap] at h
      split_ifs at h with ht
      · cases h
        exact ht.1
      · exact ih h
    | saved | created | restarted => exact ih h

theorem Stopped.saved (h : Stopped p (mid ++ .restarted p st :: earlier)) :
    ∃ later a r before, mid = later ++ .saved p a r :: before := by
  induction mid with
  | nil => exact absurd rfl h.1
  | cons e mid ih =>
    have hcons : Stopped p (mid ++ .restarted p st :: earlier) →
        ∃ later a r before, e :: mid = later ++ .saved p a r :: before := by
      intro h
      obtain ⟨later, a, r, before, rfl⟩ := ih h
      exact ⟨e :: later, a, r, before, rfl⟩
    cases e with
    | saved q a r =>
      rcases h with rfl | h
      · exact ⟨[], a, r, mid, rfl⟩
      · exact hcons h
    | restarted => exact hcons h.2
    | trap | created => exact hcons h

namespace Rested

theorem trap (h : Rested p tr) (ht : t.cpu.cs = USER_CS → lastRestarted tr ≠ some p) :
    Rested p (.trap t :: tr) where
  stopped := h.stopped
  image t' ht' := by
    rw [lastTrap, if_neg fun hc => ht hc.1 hc.2] at ht'
    exact h.image t' ht'

theorem save (ht : t.cpu.cs = USER_CS) (hr : lastRestarted tr = some p) :
    Rested p (.saved p (cdecl (entryStack t)) (savedImage (cdecl (entryStack t))) :: .trap t :: tr)
    where
  stopped := .inl rfl
  image t' ht' := by
    rw [lastTrap, lastTrap, if_pos ⟨ht, hr⟩] at ht'
    cases ht'
    rw [imageOf, if_pos rfl]

theorem saved {a : Regs} (h : Rested p tr) (hq : q ≠ p) : Rested p (.saved q a r :: tr) where
  stopped := .inr h.stopped
  image t ht := by
    rw [imageOf, if_neg hq]
    exact h.image t ht

theorem created (h : Rested p tr) (hi : imageOf i tr = none) : Rested p (.created i r :: tr) where
  stopped := h.stopped
  image t ht := by
    have himg := h.image t ht
    have hip : i ≠ p := by
      rintro rfl
      cases hi.symm.trans himg
    rwa [imageOf, if_neg hip]

theorem restarted (h : Rested p tr) (hq : q ≠ p) : Rested p (.restarted q st :: tr) where
  stopped := ⟨hq, h.stopped⟩
  image := h.image

end Rested

/-! ## The invariant -/

/-- Every process except for `o` is at rest. -/
structure Core.RestedBut (o : Option Slot) (s : Core) : Prop where
  fresh : ∀ i, s.status i = .new → imageOf i s.frames = none
  running : ∀ p, s.curr = some p → lastRestarted s.frames = some p
  rested : ∀ p, o ≠ some p → Rested p s.frames
  resumed : Resumed s.frames

namespace Core.RestedBut

theorem mono (h : s.RestedBut none) : s.RestedBut o :=
  ⟨h.fresh, h.running, fun p _ => h.rested p nofun, h.resumed⟩

theorem setStatus (h : s.RestedBut o) (i : Slot) {st : Status} (hst : st ≠ .new) :
    (s.setStatus i st).RestedBut o where
  fresh j hj := by
    by_cases hji : j = i
    · subst hji
      rw [Core.setStatus_status, Function.update_self] at hj
      exact absurd hj hst
    · rw [Core.setStatus_status, Function.update_of_ne hji] at hj
      exact h.fresh j hj
  running := h.running
  rested := h.rested
  resumed := h.resumed

theorem trap (h : s.RestedBut s.curr) (ht : t.cpu.cs = USER_CS → s.curr ≠ none) :
    (s.record (.trap t)).RestedBut s.curr where
  fresh := h.fresh
  running := h.running
  rested p hp := by
    refine (h.rested p hp).trap fun hcs hr => hp ?_
    obtain ⟨q, hq⟩ := Option.ne_none_iff_exists'.mp (ht hcs)
    exact hq.trans ((h.running q hq).symm.trans hr)
  resumed := h.resumed

theorem save (h : s.RestedBut s.curr) (hp : s.curr = some p) (hnew : s.status p ≠ .new)
    (ht : t.cpu.cs = USER_CS) :
    ((s.record (.trap t)).save p (cdecl (entryStack t))).RestedBut none where
  fresh i hi := by
    have hpi : p ≠ i := by
      rintro rfl
      exact hnew hi
    rw [Core.save_frames, imageOf, if_neg hpi]
    exact h.fresh i hi
  running := h.running
  rested q _ := by
    by_cases hqp : q = p
    · subst hqp
      exact Rested.save ht (h.running q hp)
    · refine Rested.saved ((h.trap fun _ => ?_).rested q ?_) (Ne.symm hqp)
      · rw [hp]
        exact Option.some_ne_none p
      · rw [hp]
        exact fun hc => hqp (Option.some.inj hc).symm
  resumed := h.resumed

theorem spawn (h : s.RestedBut none) (hi : s.status i = .new) (r : Regs) (n : ℕ) :
    (s.spawn i r n).RestedBut none where
  fresh j hj := by
    by_cases hji : j = i
    · subst hji
      rw [Core.spawn_status, Function.update_self] at hj
      cases hj
    · rw [Core.spawn_status, Function.update_of_ne hji] at hj
      rw [Core.spawn_frames, imageOf, if_neg (Ne.symm hji)]
      exact h.fresh j hj
  running := h.running
  rested p hp := (h.rested p hp).created (h.fresh i hi)
  resumed := h.resumed

theorem looks (h : s.RestedBut none) (hl : Looks s s') : s'.RestedBut s'.curr := by
  cases hl with
  | nobody => exact h.mono
  | @found q hq =>
    refine ⟨fun i hi => ?_, fun p hp => hp, fun p hp => ?_, h.rested q nofun, h.resumed⟩
    · exact h.fresh i ((promote_pick hq (by decide) (by decide)).mp hi)
    · exact (h.rested p nofun).restarted fun hqp => hp (congrArg some hqp)

theorem acts (h : s.RestedBut none) (ha : Acts p s c s') : s'.RestedBut s'.curr := by
  cases ha with
  | quiet => exact h.mono
  | spawned _ hi => exact (h.spawn hi _ _).mono
  | waits hl => exact (h.setStatus p (by decide)).looks hl
  | ended => exact (h.setStatus p (by decide)).mono
  | endedWaking _ hl =>
    exact ((h.setStatus p (by decide)).setStatus _ (by decide)).looks hl
  | woke _ hl => exact (h.setStatus _ (by decide)).looks hl
  | leaves =>
    have h1 := h.setStatus p (by decide : Status.terminated ≠ .new)
    exact ⟨h1.fresh, by rintro q ⟨⟩, fun q _ => h1.rested q nofun, h1.resumed⟩

end Core.RestedBut

/-! ## Steps -/

/-- In the tail of a handler. -/
def Mode.isTail : Mode → Bool
  | .tail _ => true
  | _ => false

/-- The tail of a handler ends. -/
def Label.isFinish : Label → Bool
  | .finish _ => true
  | _ => false

/-- Interrupts and system calls are taken in ring 3, or in the shell, where no process is
current. -/
def ring3Only (m : Machine) (l : Label) : Prop :=
  m.mode.isTail = true → m.mode = .tail .iret ∧ l.isFinish = true

instance (m : Machine) (l : Label) : Decidable (ring3Only m l) :=
  inferInstanceAs (Decidable (_ → _ ∧ _))

theorem ring3Only.fromUser {m : Machine} {l : Label} (h : ring3Only m l) : fromUser m l := by
  obtain ⟨m, k⟩ := m
  cases m with
  | tail a =>
    obtain ⟨ha, hl⟩ := h rfl
    cases ha
    cases l with
    | timer => cases hl
    | _ => trivial
  | user | shell | lost | fault => trivial

/-- Where a process is current, only ring-3 code calls the kernel or is interrupted. -/
theorem ring3Only.user (h : ring3Only x l) (hw : x.view.Wf) (hp : x.k.currProc = some p)
    (he : step x l = some y) : x.mode = .user ∨ ∃ t, l = .finish t ∧ x.mode = .tail .iret := by
  obtain ⟨m, k⟩ := x
  cases m with
  | user => exact .inl rfl
  | shell =>
    have hn : k.currProc = none := hw.fits
    cases hn.symm.trans hp
  | tail a =>
    obtain ⟨ha, hl⟩ := h rfl
    cases ha
    cases l with
    | finish t => exact .inr ⟨t, rfl, rfl⟩
    | _ => cases hl
  | lost | fault => cases l <;> cases he

theorem Effect.rested (h : Effect x l s') (hw : x.view.Wf) (hg : ring3Only x l)
    (he : step x l = some y) (hs : x.k.core.RestedBut x.k.core.curr) : s'.RestedBut s'.curr := by
  have htrap : ∀ t, x.mode.Takes t → (x.k.core.record (.trap t)).RestedBut x.k.core.curr := by
    refine fun t ht => hs.trap fun hcs => ?_
    have hfits : x.mode.Fits x.k.currProc := hw.fits
    rw [ht.mpr hcs] at hfits
    exact hfits
  have hsave : ∀ {p t}, x.k.currProc = some p → x.mode.Takes t → (∀ t', l ≠ .finish t') →
      ((x.k.core.record (.trap t)).save p (cdecl (entryStack t))).RestedBut none := by
    intro p t hp ht hl
    refine hs.save hp (hw.s.curr p hp) (ht.mp ?_)
    exact (hg.user hw hp he).resolve_right fun ⟨t', hl', _⟩ => hl t' hl'
  have hshell : x.mode = .shell → x.k.core.RestedBut none := by
    intro hm
    have hfits : x.mode.Fits x.k.currProc := hw.fits
    rw [hm] at hfits
    rwa [show x.k.core.curr = none from hfits] at hs
  cases h with
  | called t hc hp ha ht =>
    refine (hsave hp ht ?_).acts ha
    rintro t' rfl
    rcases hg.user hw hp he with hm | ⟨-, -, hm⟩ <;> simp [Machine.call, hm] at hc
  | ticked t' hp _ ht => exact ⟨hs.fresh, hs.running, (htrap t' ht).rested, hs.resumed⟩
  | expired t' hp _ hl ht => exact (hsave hp ht (by simp)).looks hl
  | idle t' _ _ ht => exact htrap t' ht
  | started t' hc hl ht =>
    have h1 := htrap t' ht
    rw [show x.k.core.curr = none from hc] at h1
    exact h1.looks hl
  | key t' ht =>
    have h1 := htrap t' ht
    exact ⟨h1.fresh, h1.running, h1.rested, h1.resumed⟩
  | finished | readFile | failed => exact hs
  | created hi => exact ((hshell (mode_of_create he)).spawn hi _ _).mono
  | scheduled hl => exact (hshell (mode_of_schedule he)).looks hl

theorem RunsTo.rested (h : RunsTo ring3Only m) : m.k.core.RestedBut m.k.core.curr := by
  refine h.invariant (I := fun m => m.k.core.RestedBut m.k.core.curr) (fun _ _ _ => ?_) ?_
  · exact ⟨fun _ _ => rfl, fun p hp => (by cases hp), fun p _ => ⟨trivial, nofun⟩, trivial⟩
  · exact fun x l y hw hx hg he => (step_effect hw he).rested hw hg he hx

/-! ## Transparency -/

/-- The event gives no image to `p`. -/
def FrameEvent.Keeps (p : Slot) : FrameEvent → Prop
  | .saved q _ _ | .created q _ => q ≠ p
  | .trap _ | .restarted _ _ => True

theorem imageOf_append (h : ∀ e ∈ later, e.Keeps p) : imageOf p (later ++ tr) = imageOf p tr := by
  induction later with
  | nil => rfl
  | cons e later ih =>
    have ih := ih fun e' he' => h e' (List.mem_cons_of_mem e he')
    have he := h e (by simp)
    cases e with
    | trap | restarted => exact ih
    | saved | created => rw [List.cons_append, imageOf, if_neg he, ih]

/-- The registers of the trap `t`; the selectors are cut to 16 bits. -/
def Trap.registers (t : Trap) : Cpu :=
  { t.cpu with
    gs := sel t.cpu.gs, fs := sel t.cpu.fs, es := sel t.cpu.es, ds := sel t.cpu.ds }

/-- Context switches are transparent, for a history with the newest event first. -/
structure Transparent (tr : List FrameEvent) : Prop where
  /-- `restart_proc` loads the image that the last `save_proc` for the process stored, or the one it
  was created with. -/
  loads : ∀ p st later earlier, tr = later ++ .restarted p st :: earlier →
    ∃ r, imageOf p earlier = some r ∧ st = r.args
  /-- `save_proc` stores the words pushed by the interrupt. -/
  stores : ∀ p a r later earlier, tr = later ++ .saved p a r :: earlier →
    r = savedImage a ∧ ∃ t earlier', earlier = .trap t :: earlier' ∧
      entryStack t = a.args ++ t.below
  /-- What was saved comes back into the registers it came from, whatever happens in between. -/
  back : ∀ p st t a r later mid earlier,
    tr = later ++ .restarted p st :: (mid ++ .saved p a r :: .trap t :: earlier) →
    (∀ e ∈ mid, e.Keeps p) → restartProc {} st = t.registers
  /-- A process that has been resumed is saved before it is resumed again. -/
  saved : ∀ p st st' later mid earlier,
    tr = later ++ .restarted p st' :: (mid ++ .restarted p st :: earlier) →
    ∃ after t a before, mid = after ++ .saved p a (savedImage a) :: .trap t :: before ∧
      t.cpu.cs = USER_CS ∧ entryStack t = a.args ++ t.below
  /-- A process gets back the registers of the trap by which it was interrupted last. -/
  whole : ∀ p st t later earlier, tr = later ++ .restarted p st :: earlier →
    lastTrap p earlier = some t → restartProc {} st = t.registers

/-- **Context switches are transparent.** -/
theorem switch_transparent (h : RunsTo ring3Only m) : Transparent m.k.frames := by
  have hF := (h.mono fun _ _ hg => hg.fromUser).framed
  have hsound : ∀ {later tr}, m.k.frames = later ++ tr → Sound tr :=
    fun he => Sound.of_append _ (he ▸ hF.k.sound)
  have hresumed : Resumed m.k.frames := h.rested.resumed
  have hrested : ∀ {later tr}, m.k.frames = later ++ tr → Resumed tr :=
    fun he => Resumed.of_append _ (he ▸ hresumed)
  refine ⟨fun p st later earlier he => (hsound he).1, fun p a r later earlier he => ?_, ?_, ?_, ?_⟩
  · obtain ⟨⟨hr, t, tr, ht, rfl, hcs⟩, -⟩ := hsound he
    refine ⟨hr, t, tr, ht, entryStack_user t ?_⟩
    rw [hcs]
    decide
  · intro p st t a r later mid earlier he hmid
    obtain ⟨⟨r', hr', rfl⟩, hs⟩ := hsound he
    rw [imageOf_append hmid, imageOf, if_pos rfl] at hr'
    obtain ⟨⟨rfl, t', tr, ht, rfl, hcs⟩, -⟩ := Sound.of_append _ hs
    cases ht
    cases hr'
    exact restartProc_savedImage t hcs
  · intro p st st' later mid earlier he
    obtain ⟨after, a, r, before, rfl⟩ := (hrested he).1.stopped.saved
    have hs := (hsound he).2
    rw [List.append_assoc, List.cons_append] at hs
    obtain ⟨⟨rfl, t, tr, ht, rfl, hcs⟩, -⟩ := Sound.of_append _ hs
    cases before with
    | nil => cases ht
    | cons e before =>
      cases ht
      refine ⟨after, t, _, before, rfl, hcs, entryStack_user t ?_⟩
      rw [hcs]
      decide
  · intro p st t later earlier he ht
    obtain ⟨⟨r, hr, rfl⟩, -⟩ := hsound he
    cases hr.symm.trans ((hrested he).1.image t ht)
    exact restartProc_savedImage t (lastTrap_cs ht)

/-- Two programs take turns, with a system call and timer interrupts. -/
theorem switch_transparent_turns : ∃ m : Machine, (2 ≤ m.k.frames.countP fun
    | .restarted p _ => decide (p = 0)
    | _ => false) ∧ Transparent m.k.frames := by
  obtain ⟨m, hm, hP⟩ := RunsTo.of_exec (G := ring3Only) (P := fun m => 2 ≤ m.k.frames.countP fun
      | .restarted p _ => decide (p = 0)
      | _ => false)
    [.load, .load, .schedule, .sys 13, .tick, .tick, .tick, .tick, .tick, .tick, .tick, .tick]
    (by decide +kernel) (by decide +kernel)
  exact ⟨m, hP, switch_transparent hm⟩

end AdvancedOS
