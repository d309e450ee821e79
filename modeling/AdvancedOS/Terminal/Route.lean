import AdvancedOS.Machine.Effects
import AdvancedOS.Terminal.Screen

/-!
# Where output goes

A process prints where `tmp_terminal` points to, and `proc_switch` sets `tmp_terminal` to the
`terminal` of the process. `proc_create` stores the displayed terminal there; `do_fork` and
`do_thread_create` leave what the entry of the table held.

* `Session`: the machine with a record of the terminal on which the last `exec` was typed and, for
  each process, of the one on which the `exec` of its first ancestor was;
* `OnlyOn`: what is printed changes one terminal only;
* `homed_step`: the steps after which every process still has the terminal it belongs to;
* `printed_at_home`: **in a run of such steps every process prints on the terminal it belongs to.**
-/

namespace AdvancedOS

variable {x y : Machine} {s s' : Core} {p q i : Slot} {c : Call} {home : Slot → ℕ} {typed : ℕ}

/-! ## Printing -/

/-- Only what belongs to the terminal `h` differs, where `shown` is the terminal on the screen. -/
def OnlyOn (shown h : ℕ) (c c' : Console) : Prop :=
  (shown = h → c'.terminalList = c.terminalList) ∧
    (shown ≠ h → c'.video = c.video ∧ c'.hwCursor = c.hwCursor ∧
      ∀ i, i ≠ h → c'.terminalList i = c.terminalList i)

theorem written_onlyOn (r : Routing) (b : Screen) (o : ℤ) (c : Console) :
    OnlyOn r.curr r.tmp c (c.written r b o) := by
  unfold OnlyOn Console.written Console.setScreen setCursor
  refine ⟨fun h => by simp [h], fun h => ?_⟩
  simp only [if_neg h, Console.setTerminal_video, Console.setTerminal_hwCursor,
    Console.setTerminal_terminalList, true_and]
  intro i hi
  rw [Function.update_of_ne hi, Function.update_of_ne hi]

/-- **A character changes the bytes and the cursor of the terminal that the output goes to.** -/
theorem putchar_eq_written {r : Routing} {ch attr : Byte} {col row : ℤ} {c c' : Console}
    (h : putchar r ch col row attr c = some c') : ∃ b o, c' = c.written r b o := by
  have hend : ∀ (b : Screen) (o : ℤ),
      some (let x := handleScrolling r o (c.setScreen r b); setCursor r x.1 x.2) = some c' →
        ∃ b o, c' = c.written r b o := by
    intro b o h
    rw [putchar_written] at h
    split_ifs at h
    · exact ⟨b, o, (Option.some.inj h).symm⟩
    · exact ⟨scrolled b, o - 160, (Option.some.inj h).symm⟩
  simp only [putchar, Option.bind_eq_bind, Option.pure_def] at h
  by_cases h1 : ch = 0x0A
  · rw [if_pos h1] at h
    exact hend _ _ h
  · rw [if_neg h1] at h
    by_cases h2 : ch = 0x08
    · rw [if_pos h2] at h
      obtain ⟨b, -, h⟩ := Option.bind_eq_some_iff.mp h
      exact hend _ _ h
    · rw [if_neg h2] at h
      obtain ⟨b, -, h⟩ := Option.bind_eq_some_iff.mp h
      exact hend _ _ h

theorem putchar_onlyOn {r : Routing} {ch attr : Byte} {col row : ℤ} {c c' : Console}
    (h : putchar r ch col row attr c = some c') : OnlyOn r.curr r.tmp c c' := by
  obtain ⟨b, o, rfl⟩ := putchar_eq_written h
  exact written_onlyOn r b o c

/-! ## Sessions -/

/-- The terminal on which each process belongs after a step: a child belongs where the process does
that made the call, and a program belongs where its `exec` was typed. -/
def inherit (typed : ℕ) (home : Slot → ℕ) (s s' : Core) : Slot → ℕ := fun i =>
  if s.status i = .new ∧ s'.status i ≠ .new then s.curr.elim typed home else home i

structure Session where
  m : Machine
  /-- The terminal that was displayed when the shell received the last `exec`. -/
  typed : ℕ
  /-- The terminal on which the `exec` was typed that created the first ancestor. -/
  home : Slot → ℕ

inductive SessionLabel where
  /-- The shell receives an `exec`. -/
  | exec
  | step (l : Label)

/-- The label is the creation of a program. -/
def Label.isCreate : Label → Bool
  | .create _ _ => true
  | _ => false

def sessionStep : Session → SessionLabel → Option Session
  | ⟨m, _, home⟩, .exec => if m.mode = .shell then some ⟨m, m.k.currTerminal, home⟩ else none
  | ⟨m, typed, home⟩, .step l => do
    let m' ← step m l
    return ⟨m', typed, inherit typed home m.k.core m'.k.core⟩

/-- A new process gets the terminal it belongs to: if there is an entry for it, a program is created
while the terminal is displayed on which its `exec` was typed, and only processes that belong to
terminal 0 create others themselves. -/
def keepsHome (x : Session) : SessionLabel → Prop
  | .exec => True
  | .step l => (∃ i, x.m.k.core.status i = .new) →
      (l.isCreate = true → x.m.k.currTerminal = x.typed) ∧
        ∀ c ∈ x.m.call l, c.Spawns → x.m.k.currProc.elim 0 x.home = 0

instance (x : Session) : ∀ l, Decidable (keepsHome x l)
  | .exec => isTrue trivial
  | .step _ => inferInstanceAs (Decidable (_ → _ ∧ _))

/-- The state that `initialize` leaves leads to `x` by steps that meet `G`. -/
def Session.RunsTo (G : Session → SessionLabel → Prop) (x : Session) : Prop :=
  ∃ (processReturn pthreadReturn : Word) (mem : Mem),
    Run.Reach sessionStep G ⟨boot processReturn pthreadReturn mem, 0, fun _ => 0⟩ x

theorem Session.of_exec {G : Session → SessionLabel → Prop} {P : Session → Prop} [DecidablePred P]
    [∀ x l, Decidable (G x l)] (ls : List SessionLabel)
    (hm : Run.Meets sessionStep G ⟨boot 0 0 fun _ => 0, 0, fun _ => 0⟩ ls)
    (h : (Run.exec sessionStep ⟨boot 0 0 fun _ => 0, 0, fun _ => 0⟩ ls).any (fun x => P x) = true) :
    ∃ x : Session, x.RunsTo G ∧ P x := by
  obtain ⟨x, hr, hP⟩ := Run.exists_reach ls _ hm h
  exact ⟨x, ⟨0, 0, _, hr⟩, hP⟩

/-! ## The terminals of the processes -/

/-- Every process has the terminal it belongs to, a free entry has terminal 0, and the output goes
to the terminal of the current process. -/
structure Core.Homed (home : Slot → ℕ) (s : Core) : Prop where
  terminal : ∀ i, s.status i ≠ .new → s.terminal i = home i
  free : ∀ i, s.status i = .new → s.terminal i = 0
  out : ∀ p, s.curr = some p → s.tmpTerminal = s.terminal p

/-- The same entries are free. -/
def Core.Alike (s s' : Core) : Prop := ∀ i, s'.status i = .new ↔ s.status i = .new

theorem inherit_alike (h : s.Alike s') : inherit typed home s s' = home := by
  funext i
  rw [inherit, if_neg]
  rintro ⟨h1, h2⟩
  exact h2 ((h i).mpr h1)

theorem alike_setStatus {st : Status} (hi : s.status i ≠ .new) (hst : st ≠ .new) :
    s.Alike (s.setStatus i st) := by
  intro j
  by_cases hj : j = i
  · subst hj
    simp [hst, hi]
  · simp [hj]

theorem Looks.alike (h : Looks s s') : s.Alike s' := by
  cases h with
  | nobody => exact fun i => Iff.rfl
  | found hq => exact fun i => promote_pick hq (by decide) (by decide)

theorem Core.Alike.trans {s'' : Core} (h : s.Alike s') (h' : s'.Alike s'') : s.Alike s'' :=
  fun i => (h' i).trans (h i)

namespace Core.Homed

/-- A change that leaves the terminals of the processes and the output alone. -/
theorem frame (h : s.Homed home) (ha : s.Alike s') (ht : s'.terminal = s.terminal)
    (ho : ∀ p, s'.curr = some p → s'.tmpTerminal = s.terminal p) : s'.Homed home where
  terminal i hi := by
    rw [ht]
    exact h.terminal i fun hn => hi ((ha i).mpr hn)
  free i hi := by
    rw [ht]
    exact h.free i ((ha i).mp hi)
  out p hp := by
    rw [ht]
    exact ho p hp

theorem setStatus (h : s.Homed home) {st : Status} (hi : s.status i ≠ .new) (hst : st ≠ .new) :
    (s.setStatus i st).Homed home :=
  h.frame (alike_setStatus hi hst) rfl h.out

theorem looks (h : s.Homed home) (hl : Looks s s') : s'.Homed home := by
  refine h.frame hl.alike ?_ ?_
  · cases hl <;> rfl
  · cases hl with
    | nobody => exact h.out
    | found hq =>
      rintro p ⟨⟩
      rfl

theorem spawn (h : s.Homed home) (hi : s.status i = .new) (hc : s.curr ≠ some i) (r : Regs) {n : ℕ}
    (hn : s.curr.elim typed home = n) :
    (s.spawn i r n).Homed (inherit typed home s (s.spawn i r n)) where
  terminal j hj := by
    by_cases hji : j = i
    · subst hji
      simp [inherit, hi, hn]
    · have hj' : s.status j ≠ .new := by simpa [hji] using hj
      simpa [inherit, hji, hj'] using h.terminal j hj'
  free j hj := by
    by_cases hji : j = i
    · subst hji
      simp at hj
    · simpa [hji] using h.free j (by simpa [hji] using hj)
  out p hp := by
    have hpi : p ≠ i := by
      rintro rfl
      exact hc hp
    simpa [hpi] using h.out p hp

end Core.Homed

/-! ## Steps -/

/-- A system call creates a process in a free entry, or keeps the terminals as they are. -/
theorem Acts.homed (h : s.Homed home) (hp : s.status p ≠ .new) (ha : Acts p s c s') :
    s.Alike s' ∧ s'.Homed home ∨
      ∃ i r, c.Spawns ∧ s.status i = .new ∧ s' = s.spawn i r (s.terminal i) := by
  have hset : ∀ st, st ≠ .new → s.Alike (s.setStatus p st) ∧ (s.setStatus p st).Homed home :=
    fun _ hst => ⟨alike_setStatus hp hst, h.setStatus hp hst⟩
  have hwait : ∀ {s : Core} {i}, s.status i = .waiting → s.status i ≠ .new := by
    intro s i hi
    rw [hi]
    decide
  cases ha with
  | quiet => exact .inl ⟨fun i => Iff.rfl, h⟩
  | @spawned i r hc hi => exact .inr ⟨i, r, hc, hi, rfl⟩
  | waits hl =>
    obtain ⟨h1, h2⟩ := hset .waiting (by decide)
    exact .inl ⟨h1.trans hl.alike, h2.looks hl⟩
  | ended => exact .inl (hset _ (by decide))
  | endedWaking hq hl =>
    obtain ⟨h1, h2⟩ := hset .terminated (by decide)
    have h3 := alike_setStatus (hwait hq) (by decide : Status.ready ≠ .new)
    exact .inl ⟨(h1.trans h3).trans hl.alike, (h2.setStatus (hwait hq) (by decide)).looks hl⟩
  | woke hi hl =>
    have h1 := alike_setStatus (hwait hi) (by decide : Status.ready ≠ .new)
    exact .inl ⟨h1.trans hl.alike, (h.setStatus (hwait hi) (by decide)).looks hl⟩
  | leaves =>
    obtain ⟨h1, h2⟩ := hset .terminated (by decide)
    exact .inl ⟨h1, h2.frame (fun i => Iff.rfl) rfl (by rintro p ⟨⟩)⟩

/-- **A step that gives new processes the terminal they belong to keeps every process there.** -/
theorem homed_step {l : Label} (hw : x.view.Wf) (h : x.k.core.Homed home)
    (hg : keepsHome ⟨x, typed, home⟩ (.step l)) (he : step x l = some y) :
    y.k.core.Homed (inherit typed home x.k.core y.k.core) := by
  have hkeep : ∀ {s'}, x.k.core.Alike s' ∧ s'.Homed home →
      s'.Homed (inherit typed home x.k.core s') := by
    rintro s' ⟨ha, hs'⟩
    rwa [inherit_alike ha]
  have hlooks : ∀ {s s'}, s.Homed home → x.k.core.Alike s → Looks s s' →
      s'.Homed (inherit typed home x.k.core s') :=
    fun hs ha hl => hkeep ⟨ha.trans hl.alike, hs.looks hl⟩
  have hrefl : ∀ {s' : Core}, s'.status = x.k.core.status → x.k.core.Alike s' := by
    intro s' hs i
    rw [hs]
  have hsame : ∀ {s' : Core}, s'.status = x.k.core.status → s'.terminal = x.k.core.terminal →
      s'.curr = x.k.core.curr → s'.tmpTerminal = x.k.core.tmpTerminal → s'.Homed home := by
    intro s' hs ht hc ho
    refine h.frame (hrefl hs) ht fun p hp => ?_
    rw [ho]
    exact h.out p (hc ▸ hp)
  have heff := step_effect hw he
  generalize y.k.core = s' at heff ⊢
  cases heff with
  | @called l p c s' t hl hp ha =>
    have hs : ((x.k.core.record (.trap t)).save p (cdecl (entryStack t))).Homed home :=
      hsame rfl rfl rfl rfl
    rcases Acts.homed hs (hw.s.curr p hp) ha with ⟨h1, h2⟩ | ⟨i, r, hc, hi, rfl⟩
    · exact hkeep ⟨h1, h2⟩
    · have hp0 : x.k.currProc.elim 0 home = 0 := (hg ⟨i, hi⟩).2 c hl hc
      rw [hp] at hp0
      have hci : x.k.currProc ≠ some i := by
        intro hci
        exact hw.s.curr i hci hi
      refine hs.spawn hi hci r ?_
      rw [hs.free i hi, show Core.curr _ = some p from hp]
      exact hp0
  | ticked t' => exact hkeep ⟨hrefl rfl, hsame rfl rfl rfl rfl⟩
  | @expired t p s' t' _ _ hl =>
    have hs : ((x.k.core.record (.trap t')).save p (cdecl (entryStack t'))).Homed home :=
      hsame rfl rfl rfl rfl
    exact hlooks hs (hrefl rfl) hl
  | idle t' => exact hkeep ⟨hrefl rfl, hsame rfl rfl rfl rfl⟩
  | @started t s' t' _ hl =>
    have hs : (x.k.core.record (.trap t')).Homed home := hsame rfl rfl rfl rfl
    exact hlooks hs (hrefl rfl) hl
  | @key t i t' =>
    refine hkeep ⟨hrefl rfl, h.frame (hrefl rfl) rfl fun p hp => ?_⟩
    have hp' : x.k.currProc = some p := hp
    cases i with
    | none => exact h.out p hp
    | some i => simpa [hp'] using h.out p hp
  | finished | readFile | failed => exact hkeep ⟨hrefl rfl, h⟩
  | created hi =>
    have hn : x.k.currProc = none := by
      have := hw.fits
      rwa [show x.view.mode = .shell from mode_of_create he] at this
    have hg' : x.k.currTerminal = typed := (hg ⟨_, hi⟩).1 rfl
    refine h.spawn hi (by rw [Kernel.core_curr, hn]; simp) _ ?_
    rw [Kernel.core_curr, hn, hg']
    rfl
  | scheduled hl => exact hlooks h (hrefl rfl) hl

/-- **In a run of such steps every process has the terminal it belongs to.** -/
theorem Session.RunsTo.homed {x : Session} (h : x.RunsTo keepsHome) :
    x.m.view.Wf ∧ x.m.k.core.Homed x.home := by
  obtain ⟨pr, ptr, mem, h⟩ := h
  refine h.invariant (I := fun x => x.m.view.Wf ∧ x.m.k.core.Homed x.home) ?_ ?_
  · refine ⟨⟨Sched.start_wf, rfl⟩, ⟨fun i hi => absurd rfl hi, fun i _ => rfl, ?_⟩⟩
    rintro p ⟨⟩
  · rintro ⟨m, typed, home⟩ l y ⟨hw, hh⟩ hg he
    cases l with
    | exec =>
      simp only [sessionStep] at he
      split_ifs at he
      cases he
      exact ⟨hw, hh⟩
    | step l =>
      obtain ⟨m', hm, he⟩ := Option.bind_eq_some_iff.mp he
      cases he
      exact ⟨(step_moves hw hm).wf hw, homed_step hw hh hg hm⟩

/-- **Output goes to the terminal a process belongs to.** In every state of a run in which programs
are created on the terminal displayed when their `exec` was typed, and only processes that belong to
terminal 0 create processes, what the current process prints changes nothing but the terminal it
belongs to. -/
theorem printed_at_home {x : Session} (h : x.RunsTo keepsHome) :
    ∀ p, x.m.k.currProc = some p → ∀ (ch attr : Byte) (col row : ℤ) (c c' : Console),
      putchar x.m.k.routing ch col row attr c = some c' →
        OnlyOn x.m.k.currTerminal (x.home p) c c' := by
  intro p hp ch attr col row c c' hput
  obtain ⟨hw, hh⟩ := h.homed
  have ht : x.m.k.tmpTerminal = x.home p :=
    (hh.out p hp).trans (hh.terminal p (hw.s.curr p hp))
  rw [← ht]
  exact putchar_onlyOn hput

/-- A program that was typed on terminal 1 and is created there. -/
theorem printed_at_home_exec : ∃ x : Session, x.m.k.currProc = some 0 ∧ x.home 0 = 1 ∧
    ∀ p, x.m.k.currProc = some p → ∀ (ch attr : Byte) (col row : ℤ) (c c' : Console),
      putchar x.m.k.routing ch col row attr c = some c' →
        OnlyOn x.m.k.currTerminal (x.home p) c c' := by
  obtain ⟨x, hx, hp, hh⟩ := Session.of_exec (G := keepsHome)
    (P := fun x => x.m.k.currProc = some 0 ∧ x.home 0 = 1)
    [.step (.keyboard {} (some 1)), .exec, .step .load, .step .schedule]
    (by decide +kernel) (by decide +kernel)
  exact ⟨x, hp, hh, printed_at_home hx⟩

/-- A program that was typed on terminal 1 forks, and its child prints on terminal 0. -/
theorem not_printed_at_home : ∃ x : Session, x.RunsTo (fun _ _ => True) ∧
    x.m.k.currProc = some 1 ∧ x.home 1 = 1 ∧ ∀ c, ∃ ch c',
      putchar x.m.k.routing ch 0 0 c.attributeVal c = some c' ∧
        ¬ OnlyOn x.m.k.currTerminal (x.home 1) c c' := by
  obtain ⟨x, hx, hp, hh, hc, ht⟩ := Session.of_exec (G := fun _ _ => True)
    (P := fun x => x.m.k.currProc = some 1 ∧ x.home 1 = 1 ∧ x.m.k.currTerminal = 1 ∧
      x.m.k.tmpTerminal = 0)
    [.step (.keyboard {} (some 1)), .exec, .step .load, .step .schedule, .step (.sys 10),
      .step .tick, .step .tick]
    (by decide +kernel) (by decide +kernel)
  have hr : x.m.k.routing = ⟨1, 0⟩ := by rw [Kernel.routing, hc, ht]
  refine ⟨x, hx, hp, hh, fun c => ?_⟩
  rw [hr, hc, hh]
  have hlt : 0 < VIDEO_SIZE := lt_VIDEO_SIZE (by decide)
  -- a letter that is not in the first cell
  obtain ⟨ch, hne, hn, hb⟩ : ∃ ch, (c.terminalList 0).buf ⟨0, hlt⟩ ≠ ch ∧ ch ≠ 0x0A ∧ ch ≠ 0x08 := by
    by_cases h : (c.terminalList 0).buf ⟨0, hlt⟩ = 0x58
    · exact ⟨0x59, by rw [h]; decide, by decide, by decide⟩
    · exact ⟨0x58, h, by decide, by decide⟩
  have hput := putchar_corner (r := ⟨1, 0⟩) (c := c) hn hb
  refine ⟨ch, _, hput, fun h => hne ?_⟩
  have h0 := congrFun (congrArg Terminal.buf (congrFun (h.1 rfl) 0)) ⟨0, hlt⟩
  exact h0.symm

end AdvancedOS
