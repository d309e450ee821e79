import AdvancedOS.Programs.Refine

/-!
# Runs of programs

* `World.Mirror`: the tables of the machine, the locations and the static data mirror a state of
  processes that share counting semaphores;
* `World.Stepped.mirror`: a step of the world is a step of the processes, or none;
* `World.invariant`: what holds of the processes holds of the program;
* `World.simulated`: **as long as the processes are in order, every run of a program on the kernel
  is a run of processes that share counting semaphores**; only the overflow of a semaphore stops it.
-/

namespace AdvancedOS

open Function (update update_self update_of_ne update_eq_self)

open Counting (Standing Proc State Does Proper Orderly)

variable {L V : Type} {P : Program L V} {w w' : World L V} {a a' : State L V} {s : Sched}
  {loc : Slot → L} {p : Slot} {q : Proc L} {c : Call} {y : View}

/-! ## Creation -/

theorem Sched.Wf.pid_ne (hw : s.Wf) : s.currPid + 1 ≠ 0 ∧ s.currPid + 1 ≠ -1 := by
  have h1 := hw.currPid_succ
  have h2 := hw.currPid_le
  have hm : MAX_PROCESS = 20 := rfl
  constructor
  · intro h
    rw [h] at h1
    have : (0 : Word).toNat = 0 := rfl
    omega
  · intro h
    rw [h] at h1
    have : (-1 : Word).toNat = 2 ^ 32 - 1 := rfl
    omega

/-- **A call that creates a process is a step of its caller.** -/
theorem Spawning.reflects (next : Word → L) (child : L) {ret : Word} (hy : Spawning p s c ret y)
    (hc : c.Spawns) (hx : Reflects ⟨.user, s⟩ loc a) (hw : s.Wf) (hp : s.curr = some p)
    (hq : a.procs[(p : ℕ)]? = some q) (haw : q.Awake) :
    ∃ a', Does MAX_PROCESS N_SEMAPHORE a p q a' (Instr.call c next child : Instr L V).op ∧
      a'.shared = a.shared ∧
      Reflects y (fun i => if s.status i = .new ∧ y.s.status i ≠ .new then child
        else if i = p then next ret else loc i) a' := by
  have ht : Mirrors s loc a := hx.tables
  cases hy with
  | full hfull =>
    have hlen : MAX_PROCESS ≤ a.procs.length := by
      by_contra hlt
      have h := hfull ⟨a.procs.length, by omega⟩
      rw [ne_eq, ht.new] at h
      exact h le_rfl
    have hloc : (fun i => if s.status i = .new ∧ s.status i ≠ .new then child
        else if i = p then next (-1) else loc i) = update loc p (next (-1)) := by
      funext i
      rw [if_neg fun h => h.2 h.1, Function.update_apply]
    have hgo := hx.goTo hq haw (m := .tail .iret) (by simp) (next (-1))
    cases c with
    | fork | threadCreate =>
      refine ⟨_, .inr ⟨hlen, rfl⟩, rfl, ?_⟩
      rw [hloc]
      exact hgo
    | _ => exact hc.elim
  | first hi hfirst =>
    rename_i i
    have hlen : (i : ℕ) = a.procs.length := by
      have hle := (ht.new i).mp hi
      by_contra hne
      have hlt : a.procs.length < i := by omega
      refine hfirst ⟨a.procs.length, hlt.trans i.isLt⟩ hlt ?_
      rw [ht.new]
    have hip : i ≠ p := by
      rintro rfl
      exact hw.curr i hp hi
    have hloc : ∀ l : L, (fun j => if s.status j = .new ∧
        ((s.spawn i (some p)).emit (.goesOn p)).status j ≠ .new then child
        else if j = p then l else loc j) = update (update loc p l) i child := by
      intro l
      funext j
      by_cases hj : j = i
      · subst hj
        simp [hi]
      · rw [update_of_ne hj, Function.update_apply, if_neg]
        simp [hj]
    have hput : ∀ l : L, (a.put p (q.to l)).procs.length = a.procs.length := fun l => List.length_set
    have hgo : ∀ l : L, Reflects ⟨.user, (s.spawn i (some p)).emit (.goesOn p)⟩
        (update (update loc p l) i child) { a.put p (q.to l) with
          procs := (a.put p (q.to l)).procs ++ [{ loc := child, parent := some (p : ℕ) }] } := by
      intro l
      have hs := (ht.goTo hq haw.not_asleep l).spawn (p := p) (hlen.trans (hput l).symm) child
      refine .of_mode (hs.emit _) (fun j r hj hr => ?_) (by simp) hx.int
      by_cases hji : (j : ℕ) < (a.put p (q.to l)).procs.length
      · rw [List.getElem?_append_left hji] at hr
        exact hx.current.put (p := p) (q := q.to l) haw j r hj hr
      · have hjp : j = p := Option.some.inj (hj.symm.trans hp)
        rw [hput, hjp] at hji
        exact absurd (lt_of_getElem? hq) hji
    have hlt : a.procs.length < MAX_PROCESS := hlen ▸ i.isLt
    have hpid := hw.pid_ne
    cases c with
    | fork =>
      refine ⟨_, .inl ⟨hlt, _, ⟨s.currPid + 1, hpid.1, hpid.2, rfl⟩, rfl⟩, rfl, ?_⟩
      rw [if_pos rfl, hloc]
      exact hgo _
    | threadCreate =>
      refine ⟨_, .inl ⟨hlt, _, rfl, rfl⟩, rfl, ?_⟩
      rw [if_neg (by simp), hloc]
      exact hgo _
    | _ => exact hc.elim

/-! ## The world -/

/-- The world mirrors the processes `a`. -/
structure World.Mirror (w : World L V) (a : State L V) : Prop where
  view : Reflects w.m.view w.loc a
  data : a.shared = w.data

theorem isInt_toInt (x : Word) : IsInt x.toInt := by
  have h1 := BitVec.toInt_lt (x := x)
  have h2 := BitVec.le_toInt (x := x)
  exact ⟨by omega, by omega⟩

/-- The operand of a call of `do_getsem` is an `int`. -/
def IntOperand (c : Call) : Prop := ∀ v, c = .getSem v → IsInt v

theorem IntOperand.ite {b : Prop} [Decidable b] {c d : Call} (hc : IntOperand c)
    (hd : IntOperand d) : IntOperand (if b then c else d) := by
  split <;> assumption

theorem intOperand_decode80 (no arg : Word) : IntOperand (decode80 no arg) := by
  unfold decode80
  iterate 6 refine .ite (by simp [IntOperand]) ?_
  refine .ite (fun v hv => ?_) ?_
  · cases hv
    exact isInt_toInt arg
  · iterate 4 refine .ite (by simp [IntOperand]) ?_
    simp [IntOperand]

theorem intOperand_decode81 (no arg1 arg2 arg3 : Word) :
    IntOperand (decode81 no arg1 arg2 arg3) := by
  unfold decode81
  iterate 4 refine .ite (by simp [IntOperand]) ?_
  simp [IntOperand]

theorem call_cases {m m' : Machine} {l : Label} (hm : m.mode = .user) (hc : m.call l = some c)
    (hs : step m l = some m') : (∃ no, c = .file no) ∨
      ∃ t, m' = settle (handler t c false m.k) ∧ m.result l = eaxOf (handler t c false m.k) ∧
        IntOperand c := by
  obtain ⟨mode, k⟩ := m
  cases hm
  cases l with
  | int80 t =>
    cases hc
    cases hs
    exact .inr ⟨t.user, rfl, rfl, intOperand_decode80 _ _⟩
  | int81 t =>
    cases hc
    cases hs
    exact .inr ⟨t.user, rfl, rfl, intOperand_decode81 _ _ _ _⟩
  | int82 t reads =>
    cases hc
    exact .inl ⟨_, rfl⟩
  | finish t => cases hc
  | timer | keyboard | readFile | create | schedule => cases hc

theorem step_new {m m' : Machine} {l : Label} (hw : m.view.Wf) (hs : step m l = some m')
    (hf : ∀ f, m.mode ≠ .fault f) (hl : ∀ addr flag, l ≠ .create addr flag)
    (hc : m.call l = none) : (∀ i, m'.view.s.status i = .new ↔ m.view.s.status i = .new) ∧
      ∀ f, m'.view.mode ≠ .fault f := by
  obtain ⟨mode, k⟩ := m
  let Q : View → Prop := fun y => (∀ i, y.s.status i = .new ↔ k.sched.status i = .new) ∧
    ∀ f, y.mode ≠ .fault f
  have hseeks : ∀ {m : Mode} {y : View}, (∀ f, m ≠ .fault f) → Seeks k.sched m y → Q y := by
    intro m y hm hy
    cases hy with
    | nobody => exact ⟨fun _ => Iff.rfl, hm⟩
    | user hq | lost hq => exact ⟨fun _ => promote_pick hq (by decide) (by decide), by simp⟩
  cases step_cases hs with
  | call _ hc' => rw [hc] at hc'; cases hc'
  | processReturn t hm =>
    subst hm
    cases hc
  | timer t t' hm =>
    exact pitHandler_seeks (P := Q) t' mode hw.s ⟨fun _ => Iff.rfl, hf⟩ fun y hy => hseeks hf hy
  | keyboard t t' j =>
    exact keyboardHandler_idle (P := Q) t' j mode ⟨fun _ => Iff.rfl, hf⟩ fun _ =>
      ⟨fun _ => Iff.rfl, by simp⟩
  | finish t hm =>
    refine ⟨fun i => ?_, fun f => ?_⟩
    · unfold toUser
      split <;> exact Iff.rfl
    · simp [toUser_mode]
  | readFile => exact ⟨fun _ => Iff.rfl, by simp⟩
  | create addr flag => exact (hl addr flag rfl).elim
  | schedule hm =>
    change Q (shellResult (scheduleProc k)).view
    rw [← ends_result scheduleProc fun r => Q (shellResult r).view]
    exact ends_scheduleProc_seeks (m := .shell) (P := Q) hw.s id fun y hy => hseeks (by simp) hy

theorem Reflects.other {m m' : Machine} {l : Label} (hx : Reflects m.view loc a) (hw : m.view.Wf)
    (hs : step m l = some m') (hl : ∀ addr flag, l ≠ .create addr flag)
    (hc : m.mode = .user → m.k.currProc ≠ none → m.call l = none) : Reflects m'.view loc a := by
  have hmoves := step_moves hw hs
  have hnew := step_new hw hs hx.sound hl
  revert hmoves hnew
  generalize m'.view = y
  intro hmoves hnew
  obtain ⟨mode, k⟩ := m
  change Moves ⟨mode, k.sched⟩ _ y at hmoves
  generalize hcall : Machine.call ⟨mode, k⟩ l = o at hmoves hnew
  cases hmoves with
  | served hm hp hy =>
    rename_i p c
    rcases hm with rfl | ⟨rfl, rfl⟩
    · have hne : k.currProc ≠ none := by
        rw [show k.currProc = some p from hp]
        simp
      rw [hc rfl hne] at hcall
      cases hcall
    · -- a thread that has exited leaves for the shell
      obtain ⟨q, hq⟩ := hx.tables.getElem?_of_ne_new (hw.s.curr p hp)
      have hret := hx.exiting rfl p q hp hq
      cases hy with
      | quiet hq => exact hq.elim
      | full hs | spawned hs => exact hs.elim
      | waits hw' => exact hw'.elim
      | ends he | endsWaking he => exact he.elim
      | leaves =>
        have ht := (hx.tables.emit (.call p .processReturn)).setStanding' (σ := .retired)
          (t := .terminated) hq (by simp [hret]) (by simp) (by simp [Allows])
        have hself : ({ q with standing := .retired } : Proc L) = q := by rw [← hret]
        rw [hself, State.put_self hq] at ht
        refine .of_mode (ht.frame none _) (fun p' q' hp' => ?_) (by simp) hx.int
        cases hp'
  | finished hp =>
    exact .of_mode (hx.tables.emit _) hx.current (by simp) hx.int
  | idle hm =>
    rcases hm with rfl | ⟨-, rfl⟩
    · exact hx
    · exact .of_mode hx.tables hx.current (by simp) hx.int
  | sought _ hy => exact hy.reflects hx.tables hx.int (fun _ => hx.current) hx.exiting hx.sound
  | created hi =>
    rename_i i
    have := ((hnew rfl).1 i).mpr hi
    simp at this
  | failed => exact absurd rfl ((hnew rfl).2 .null)

theorem Reflects.write {x : View} (hx : Reflects x loc a) (v : V) :
    Reflects x loc { a with shared := v } := by
  obtain ⟨ht, hc, he, hi, hf⟩ := hx
  refine ⟨⟨ht.new, ht.procs_le, ht.loc, ht.fits, ht.parent, ht.next, ht.asleep, ht.sems_le,
    ht.used, ht.fresh, ht.sem⟩, hc, he, hi, hf⟩

theorem World.locs_eq {m : Machine} {next child : L} (ht : Mirrors w.m.k.sched w.loc a)
    (ht' : Mirrors m.k.sched loc a') (hlen : a'.procs.length = a.procs.length) :
    w.locs p next child m = update w.loc p next := by
  funext i
  rw [World.locs, if_neg, Function.update_apply]
  rintro ⟨h1, h2⟩
  refine h2 ((ht'.new i).mpr ?_)
  rw [hlen]
  exact (ht.new i).mp h1

/-- The value of a semaphore is that of an `int`, or below zero. -/
theorem Reflects.val {x : View} (hx : Reflects x loc a) {i : SemId} {z : Semaphore}
    (hz : x.s.sem i = z) (hi : (i : ℕ) < a.sems.length) :
    z.val = a.sems[(i : ℕ)] ∨ z.val = -1 ∧ z.head ≠ none := by
  subst hz
  rcases hx.tables.sem i _ (List.getElem?_eq_getElem hi) with
    ⟨-, hv, -⟩ | ⟨h, -, -, -, -, -, hv, hh⟩
  · exact .inl hv
  · exact .inr ⟨hv, by simp [hh]⟩

/-- **A proper use of a semaphore is not undefined**, unless its value overflows. -/
theorem Reflects.no_fault {k : Kernel} {t : Trap} {m : Mode} {next : Word → L} {child : L}
    (hx : Reflects ⟨m, k.sched.emit (.call p c)⟩ loc a) (hp : k.currProc = some p)
    (hprop : Proper a p q (Instr.call c next child : Instr L V).op)
    (hV : ∀ i : SemId, c = .semV i → IsInt ((k.semList i).val + 1)) (i : SemId)
    (hc : c = .semP i ∨ c = .semV i) (f : Fault) :
    (settle (handler t c false k)).view.mode ≠ .fault f := by
  rcases hc with rfl | rfl
  · rw [op_semP] at hprop
    refine semP_mode i hp ?_ f
    have hn := hx.int _ (List.getElem_mem hprop.1)
    obtain ⟨hn1, hn2⟩ := hn
    rcases hx.val (z := k.semList i) rfl hprop.1 with hv | ⟨hv, -⟩ <;> rw [hv] <;>
      constructor <;> omega
  · rw [op_semV] at hprop
    refine (semV_mode i hp).2 (hV i rfl) (fun hneg => ?_) f
    rcases hx.val (z := k.semList i) rfl hprop with hv | ⟨-, hv⟩
    · omega
    · exact hv

/-- A semaphore that overflows has as many units as an `int` can count. -/
theorem Reflects.units_max {k : Kernel} {i : SemId} {m : Mode} {next : Word → L} {child : L}
    (hx : Reflects ⟨m, k.sched⟩ loc a)
    (hprop : Proper a p q (Instr.call (.semV i) next child : Instr L V).op)
    (hi : ¬ IsInt ((k.semList i).val + 1)) : 2 ^ 31 - 1 ∈ a.sems := by
  rw [op_semV] at hprop
  have hlt : (i : ℕ) < a.sems.length := hprop
  have hmem := List.getElem_mem hlt
  obtain ⟨hn1, hn2⟩ := hx.int _ hmem
  unfold IsInt at hi
  have hmax : a.sems[(i : ℕ)] = 2 ^ 31 - 1 := by
    rcases hx.val (z := k.semList i) rfl hlt with hv | ⟨hv, -⟩ <;> omega
  rwa [hmax] at hmem

/-- **A step of the world is a step of the processes or none**, unless a semaphore overflows. -/
theorem World.Stepped.mirror (hst : World.Stepped P w w') (hw : w.m.view.Wf) (hm : w.Mirror a)
    (ho : Orderly P.op a) :
    (∃ a', (a' = a ∨ Counting.Step MAX_PROCESS N_SEMAPHORE P.op a a') ∧ w'.Mirror a') ∨
    w'.m.mode = .fault .overflow ∧ a.shared = w'.data ∧ 2 ^ 31 - 1 ∈ a.sems := by
  cases hst with
  | own hmode hp hcode =>
    rename_i p f
    obtain ⟨q, hq⟩ := hm.view.tables.getElem?_of_ne_new (hw.s.curr p hp)
    have haw := hm.view.current p q hp hq
    rw [hm.view.tables.loc p q hq] at hcode
    have hgo := hm.view.goTo hq haw (m := w.m.mode) (by simp [hmode]) (f w.data).1
    refine .inl ⟨{ a.put p (q.to (f w.data).1) with shared := (f w.data).2 },
      .inr ⟨p, q, hq, haw, ?_⟩, hgo.write _, rfl⟩
    rw [Program.op, hcode, ← hm.data]
    rfl
  | call hmode hp hcall hcode hs =>
    rename_i p c next child l m
    have hview : w.m.view = ⟨.user, w.m.k.sched⟩ := by rw [Machine.view, hmode]
    have hx : Reflects ⟨.user, w.m.k.sched⟩ w.loc a := hview ▸ hm.view
    obtain ⟨q, hq⟩ := hx.tables.getElem?_of_ne_new (hw.s.curr p hp)
    have haw := hx.current p q hp hq
    have hop : P.op q.loc = (Instr.call c next child : Instr L V).op := by
      rw [Program.op, ← hx.tables.loc p q hq, hcode]
    have hprop := ho p q hq haw
    rw [hop] at hprop
    have hx₁ := hx.emit (.call p c)
    have hw₁ := hw.s.emit (.call p c)
    rcases call_cases hmode hcall hs with ⟨no, rfl⟩ | ⟨t, rfl, hret, hint⟩
    · exact hprop.elim
    set ret := w.m.result l with hr
    by_cases hc : c.Spawns
    · have hsp : Spawning p _ c _ (settle (handler t c false w.m.k)).view := handler_spawning hc hp
      rw [← hret] at hsp
      obtain ⟨a', hd, hsh, hx'⟩ := hsp.reflects next child hc hx₁ hw₁ hp hq haw
      refine .inl ⟨a', .inr ⟨p, q, hq, haw, hop ▸ hd⟩, hx', hsh.trans hm.data⟩
    · have hy : Serves p (w.m.k.sched.emit (.call p c)) c (settle (handler t c false w.m.k)).view :=
        handler_serves t false hw.s hp fun y hy => hy
      have hret' : Returns (w.m.k.sched.emit (.call p c)) c ret := hret ▸ eaxOf_handler hp
      by_cases hV : ∀ i : SemId, c = .semV i → IsInt ((w.m.k.semList i).val + 1)
      · obtain ⟨a', hd, hlen, hsh, hx'⟩ := hy.reflects hx₁ hw₁ hp hq haw hprop hc hret' hint
          (hx₁.no_fault hp hprop hV) hV
        refine .inl ⟨a', .inr ⟨p, q, hq, haw, hop ▸ hd⟩, ?_, hsh.trans hm.data⟩
        rwa [World.locs_eq hx.tables hx'.tables hlen]
      · -- the value of a semaphore overflows
        obtain ⟨i, rfl, hi⟩ : ∃ i : SemId, c = .semV i ∧ ¬ IsInt ((w.m.k.semList i).val + 1) := by
          simpa using hV
        refine .inr ⟨(semV_mode i hp).1 hi, hm.data, ?_⟩
        exact hx.units_max hprop hi
  | other hl hc hs => exact .inl ⟨a, .inl rfl, hm.view.other hw hs hl hc, hm.data⟩

/-! ## Runs -/

theorem mirrors_start (l : L) (v : V) :
    Mirrors (Sched.start.spawn 0 none) (fun _ => l) ⟨[{ loc := l }], [], v⟩ := by
  have hget : ∀ {i : ℕ} {q : Proc L}, [({ loc := l } : Proc L)][i]? = some q →
      i = 0 ∧ q = { loc := l } := by
    intro i q hi
    cases i with
    | zero => exact ⟨rfl, (Option.some.inj hi).symm⟩
    | succ i => simp at hi
  have hslot : ∀ {i : Slot}, (i : ℕ) = 0 → i = 0 := fun h => Fin.ext h
  refine ⟨fun i => ?_, by simp [MAX_PROCESS], ?_, ?_, ?_, fun _ => rfl, ?_, by simp, ?_,
    fun _ _ => rfl, ?_⟩
  · by_cases hi : i = 0
    · subst hi
      simp
    · have : (i : ℕ) ≠ 0 := fun h => hi (hslot h)
      simp only [Sched.spawn_status, update_of_ne hi, List.length_singleton]
      exact iff_of_true rfl (by omega)
  · intro i q hi
    rw [(hget hi).2]
  · intro i q hi
    obtain ⟨h0, rfl⟩ := hget hi
    rw [hslot h0]
    exact .inl (by simp)
  · intro i q hi
    obtain ⟨h0, rfl⟩ := hget hi
    rw [hslot h0]
    simp
  · intro i q j hi hj
    rw [(hget hi).2] at hj
    cases hj
  · intro i
    exact iff_of_false (by simp [Sched.start]) (by simp)
  · intro i n hn
    simp at hn

theorem freeSlot_boot (pr ptr : Word) (mem : Mem) : freeSlot (boot pr ptr mem).k.procList = some 0 := by
  rfl

/-- **The world in which a program has been started mirrors one process.** -/
theorem World.Starts.mirror (hw : w.Starts P) : w.Mirror ⟨[{ loc := P.start }], [], P.data⟩ := by
  obtain ⟨pr, ptr, mem, addr, flag, m, hm, hs, hloc, hdata⟩ := hw
  have hview : m.view = ⟨.shell, Sched.start.spawn 0 none⟩ := by
    cases hm
    rw [← ends_result (procCreate USER_CS USER_DS addr flag) fun r =>
      (shellResult r).view = ⟨.shell, Sched.start.spawn 0 none⟩, ends_procCreate]
    have hfree := freeSlot_boot pr ptr mem
    refine ⟨fun hn => ?_, fun i hi => ?_⟩
    · exact absurd (hn.symm.trans hfree) (by simp)
    · obtain rfl : i = 0 := Option.some.inj (hi.symm.trans hfree)
      simp only [shellResult, Machine.view, sched_spawn]
      rfl
  obtain ⟨mode, k⟩ := m
  obtain ⟨rfl, hk⟩ : mode = .shell ∧ k.sched = Sched.start.spawn 0 none := by
    exact ⟨congrArg View.mode hview, congrArg View.s hview⟩
  have hwf : k.sched.Wf := by
    rw [hk]
    exact Sched.start_wf.spawn rfl (by simp)
  have ht : Mirrors k.sched w.loc ⟨[{ loc := P.start }], [], P.data⟩ := by
    rw [hk, hloc]
    exact mirrors_start P.start P.data
  refine ⟨?_, hdata.symm⟩
  rw [← Option.some.inj hs]
  rw [← ends_result scheduleProc fun r => Reflects (shellResult r).view w.loc _]
  refine ends_scheduleProc_seeks (m := .shell) (P := fun y => Reflects y w.loc _) hwf id ?_
  exact fun y hy => hy.reflects_of_ready ht (by simp) (j := 0) (by simp [hk])

theorem World.Runs.runsTo (hw : w.Runs P) : RunsTo (fun _ _ => True) w.m := by
  obtain ⟨w₀, ⟨pr, ptr, mem, addr, flag, m, hm, hs, -⟩, hr⟩ := hw
  refine ⟨pr, ptr, mem, ?_⟩
  induction hr with
  | init => exact .step .schedule (.step (.create addr flag) .init trivial hm) trivial hs
  | step l _ _ he ih =>
    cases World.step_cases he with
    | own => exact ih
    | call _ _ _ _ hs => exact .step _ ih trivial hs
    | other _ _ hs => exact .step _ ih trivial hs

theorem World.step_fault {f : Fault} (hw : w.m.mode = .fault f) (v : Move) : w.step P v ≠ some w' := by
  intro h
  have hnone : ∀ l, AdvancedOS.step w.m l = none := by
    intro l
    obtain ⟨⟨mode, k⟩, loc, data⟩ := w
    cases hw
    cases l <;> rfl
  cases World.step_cases h with
  | own hm => simp [hw] at hm
  | call hm => simp [hw] at hm
  | other _ _ hs => simp [hnone] at hs

/-- A state of the processes that a program may reach. -/
abbrev Program.Reachable (P : Program L V) (a : State L V) : Prop :=
  Counting.Reachable MAX_PROCESS N_SEMAPHORE P.op P.start P.data a

/-- **What holds of the processes, and keeps them in order, holds of every run.** -/
theorem World.invariant {I : State L V → Prop} (h0 : I ⟨[{ loc := P.start }], [], P.data⟩)
    (hs : ∀ a (p : ℕ) q a', a.Drained → I a → a.procs[p]? = some q → q.Awake →
      Does MAX_PROCESS N_SEMAPHORE a p q a' (P.op q.loc) → I a')
    (ho : ∀ a, a.Drained → I a → Orderly P.op a) (hw : w.Runs P) :
    ∃ a, a.Drained ∧ I a ∧ a.shared = w.data ∧
      (w.Mirror a ∨ w.m.mode = .fault .overflow ∧ 2 ^ 31 - 1 ∈ a.sems) := by
  obtain ⟨w₀, hw₀, hr⟩ := hw
  have hwf : ∀ w, Run.Reach (World.step P) (fun _ _ => True) w₀ w → w.m.view.Wf := fun w hr =>
    (World.Runs.runsTo ⟨w₀, hw₀, hr⟩).wf
  induction hr with
  | init => exact ⟨_, Counting.Reachable.drained (show P.Reachable _ from .refl), h0, hw₀.mirror.data, .inl hw₀.mirror⟩
  | step l hr _ he ih =>
    obtain ⟨a, hdr, ha, -, hm | ⟨hf, -⟩⟩ := ih
    · rcases (World.step_cases he).mirror (hwf _ hr) hm (ho a hdr ha) with
        ⟨a', rfl | ⟨p, q, hp, hq, hd⟩, hm'⟩ | ⟨hf, hd, hmax⟩
      · exact ⟨a', hdr, ha, hm'.data, .inl hm'⟩
      · exact ⟨a', hd.drained hq hdr, hs a p q a' hdr ha hp hq hd, hm'.data, .inl hm'⟩
      · exact ⟨a, hdr, ha, hd, .inr ⟨hf, hmax⟩⟩
    · exact (World.step_fault hf l he).elim

/-- **As long as the processes are in order, every run of a program on the kernel is a run of
processes that share counting semaphores.** -/
theorem World.simulated (ho : ∀ a, P.Reachable a → Orderly P.op a) (hw : w.Runs P) :
    ∃ a, P.Reachable a ∧ a.shared = w.data ∧
      (w.Mirror a ∨ w.m.mode = .fault .overflow ∧ 2 ^ 31 - 1 ∈ a.sems) := by
  obtain ⟨a, -, ha⟩ := World.invariant (I := P.Reachable) .refl
    (fun a p q a' _ ha hp hq hd => ha.tail ⟨p, q, hp, hq, hd⟩) (fun a _ ha => ho a ha) hw
  exact ⟨a, ha⟩

theorem World.Mirror.runnable (hm : w.Mirror a) {i : ℕ} {q : Proc L} (hq : a.procs[i]? = some q)
    (hact : q.standing = .active) : ∃ s : Slot, (w.m.k.procList s).status = .ready ∨
      (w.m.k.procList s).status = .running := by
  have hlt : i < MAX_PROCESS :=
    (List.getElem?_eq_some_iff.mp hq).1.trans_le hm.view.tables.procs_le
  have hfit := hm.view.tables.fits ⟨i, hlt⟩ q hq
  rw [hact] at hfit
  exact ⟨⟨i, hlt⟩, hfit⟩

/-- The program has been started on a machine with all addresses and all of the memory zero. -/
def Program.booted (P : Program L V) : Option (World L V) :=
  (Run.exec AdvancedOS.step (boot 0 0 fun _ => 0) [.create 0 0, .schedule]).map fun m =>
    ⟨m, fun _ => P.start, P.data⟩

theorem World.Runs.of_exec {Q : World L V → Prop} [DecidablePred Q] (vs : List Move)
    (h : (P.booted.bind fun w => Run.exec (World.step P) w vs).any (fun w => Q w) = true) :
    ∃ w : World L V, w.Runs P ∧ Q w := by
  obtain ⟨w, he, hQ⟩ := Option.any_eq_true _ _ |>.mp h
  obtain ⟨w₀, h₀, hvs⟩ := Option.bind_eq_some_iff.mp he
  obtain ⟨m, hm, rfl⟩ := Option.map_eq_some_iff.mp h₀
  obtain ⟨m₁, h₁, hrest⟩ := Option.bind_eq_some_iff.mp hm
  obtain ⟨m₂, h₂, h₃⟩ := Option.bind_eq_some_iff.mp hrest
  obtain rfl : m₂ = m := Option.some.inj h₃
  refine ⟨w, ⟨⟨_, fun _ => P.start, P.data⟩, ⟨0, 0, _, 0, 0, m₁, h₁, h₂, rfl, rfl⟩, ?_⟩,
    by simpa using hQ⟩
  exact Run.reach_of_exec vs _ hvs (Run.meets_of_forall (fun _ _ => trivial) vs _)

/-- A program that creates a process and counts in both. -/
def Program.counts : Program Bool ℕ where
  code l := if l then .act fun n => (true, n + 1) else .call .fork (fun _ => true) true
  start := false
  data := 0

/-- Both of its processes have counted. -/
theorem simulated_counts : ∃ (w : World Bool ℕ) (a : State Bool ℕ), w.Runs .counts ∧
    Program.counts.Reachable a ∧ a.shared = w.data ∧ w.Mirror a ∧ w.data = 2 := by
  obtain ⟨w, hw, hdata, hmode⟩ := World.Runs.of_exec (P := .counts)
    (Q := fun w => w.data = 2 ∧ w.m.mode = .user)
    [.kernel (.sys 10), .own, .kernel .tick, .kernel .tick, .own] (by decide +kernel)
  have ho : ∀ a, Program.counts.Reachable a → Orderly Program.counts.op a := by
    intro a _ p q _ _
    cases hl : q.loc <;> trivial
  obtain ⟨a, ha, hd, hm⟩ := World.simulated ho hw
  refine ⟨w, a, hw, ha, hd, hm.resolve_right fun h => ?_, hdata⟩
  cases hmode.symm.trans h.1

end AdvancedOS
