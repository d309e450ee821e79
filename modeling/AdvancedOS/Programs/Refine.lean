import AdvancedOS.Programs.Answers
import AdvancedOS.Programs.Mirrors

/-!
# The kernel runs programs as processes with counting semaphores

* `Reflects`: the view of a machine reflects a state of the processes;
* `Serves.reflects`: a system call is a step of its caller;
* `World.Stepped.reflects`: a step of the world is a step of the processes or none;
* `World.simulated`: **as long as the processes are in order, every run of a program is a run of
  processes that share counting semaphores.** Only the overflow of a semaphore stops it.
-/

namespace AdvancedOS

open Function (update update_self update_of_ne update_eq_self)

open Counting (Standing Proc State Does Proper Orderly)

variable {L V : Type} {s : Sched} {loc : Slot → L} {a a' : State L V} {p h : Slot} {q r : Proc L}
  {m : Mode} {y : View} {c : Call}

theorem Current.put (hc : Current s a) {p : ℕ} (hq : q.Awake) : Current s (a.put p q) := by
  intro p' r hp' hr
  rcases State.getElem?_put hr with ⟨-, rfl⟩ | ⟨-, hr⟩
  · exact hq
  · exact hc p' r hp' hr

/-! ## Views -/

/-- The view reflects the processes `a` at the locations `loc`. -/
structure Reflects (x : View) (loc : Slot → L) (a : State L V) : Prop where
  tables : Mirrors x.s loc a
  current : Current x.s a
  /-- A thread that is about to leave for the shell has exited. -/
  exiting : x.mode = .tail .processReturn → ∀ (p : Slot) q, x.s.curr = some p →
    a.procs[(p : ℕ)]? = some q → q.standing = .retired
  int : ∀ n ∈ a.sems, IsInt (n : ℤ)
  sound : ∀ f, x.mode ≠ .fault f

theorem Reflects.of_mode {x : View} (ht : Mirrors x.s loc a) (hc : Current x.s a)
    (hm : x.mode ≠ .tail .processReturn ∧ ∀ f, x.mode ≠ .fault f)
    (hi : ∀ n ∈ a.sems, IsInt (n : ℤ)) : Reflects x loc a :=
  ⟨ht, hc, fun h => absurd h hm.1, hi, hm.2⟩

theorem Seeks.reflects (h : Seeks s m y) (hs : Mirrors s loc a) (hi : ∀ n ∈ a.sems, IsInt (n : ℤ))
    (hc : pick s.status = none → Current s a)
    (he : m = .tail .processReturn → ∀ (p : Slot) q, s.curr = some p → a.procs[(p : ℕ)]? = some q →
      q.standing = .retired) (hf : ∀ f, m ≠ .fault f) : Reflects y loc a := by
  obtain ⟨ht, hc'⟩ := h.mirrors hs hc
  cases h with
  | nobody => exact ⟨ht, hc', he, hi, hf⟩
  | user | lost => exact .of_mode ht hc' (by simp) hi

theorem Seeks.reflects_of_ready (h : Seeks s m y) (hs : Mirrors s loc a)
    (hi : ∀ n ∈ a.sems, IsInt (n : ℤ)) {j : Slot} (hr : s.status j = .ready) : Reflects y loc a := by
  have hn : pick s.status ≠ none := pick_ne_none hr
  obtain ⟨ht, hc⟩ := h.mirrors hs fun h0 => absurd h0 hn
  cases h with
  | nobody h0 => exact absurd h0 hn
  | user | lost => exact .of_mode ht hc (by simp) hi

/-! ## System calls -/

theorem Reflects.emit (hx : Reflects ⟨m, s⟩ loc a) (e : Event) : Reflects ⟨m, s.emit e⟩ loc a :=
  ⟨hx.tables.emit e, hx.current, hx.exiting, hx.int, hx.sound⟩

theorem Reflects.goTo {x : View} (hx : Reflects x loc a) (hq : a.procs[(p : ℕ)]? = some q)
    (haw : q.Awake) (hm : m ≠ .tail .processReturn ∧ ∀ f, m ≠ .fault f) (l : L) :
    Reflects ⟨m, x.s⟩ (update loc p l) (a.put p (q.to l)) :=
  .of_mode (hx.tables.goTo hq haw.not_asleep l) (hx.current.put haw) hm hx.int

section Calls

variable (hx : Reflects ⟨.user, s⟩ loc a) (hq : a.procs[(p : ℕ)]? = some q) (haw : q.Awake) (l : L)
include hx hq haw

theorem Reflects.getSem {i : SemId} (hi : unusedSem s.sem = some i) {v : ℤ} (hv : IsInt v)
    (h0 : 0 ≤ v) : (i : ℕ) = a.sems.length ∧
    Reflects ⟨.user, s.setSem i { s.sem i with val := v, used := true }⟩ (update loc p l)
      { a.put p (q.to l) with sems := a.sems ++ [v.toNat] } := by
  have hlen : (i : ℕ) = a.sems.length := by
    have h1 : ¬ (i : ℕ) < a.sems.length := by
      rw [← hx.tables.used i, unusedSem_some hi]
      simp
    by_contra hne
    have hlt : a.sems.length < (i : ℕ) := by omega
    have h2 := unusedSem_first hi ⟨a.sems.length, hlt.trans i.isLt⟩ hlt
    rw [hx.tables.used] at h2
    exact absurd h2 (lt_irrefl _)
  refine ⟨hlen, ?_⟩
  have ht := (hx.tables.get hlen v.toNat).goTo hq haw.not_asleep l
  rw [Int.toNat_of_nonneg h0] at ht
  refine .of_mode ht (hx.current.put haw) (by simp) fun n hn => ?_
  rcases List.mem_append.mp hn with hn | hn
  · exact hx.int n hn
  · rw [List.mem_singleton.mp hn, Int.toNat_of_nonneg h0]
    exact hv

theorem Reflects.units {i : SemId} (hlt : (i : ℕ) < a.sems.length) (hu : a.Unslept i) {n : ℕ}
    (hn : IsInt (n : ℤ)) :
    Reflects ⟨.tail .iret, s.setSem i { s.sem i with val := n }⟩ (update loc p l)
      ((a.put p (q.to l)).units i n) := by
  refine .of_mode ((hx.tables.units hlt hu n).goTo hq haw.not_asleep l) (hx.current.put haw)
    (by simp) fun k hk => ?_
  rcases List.mem_or_eq_of_mem_set hk with hk | rfl
  · exact hx.int k hk
  · exact hn

theorem Reflects.sleep (hp : s.curr = some p) {i : SemId} (hw : s.Wf) (hi : a.sems[(i : ℕ)]? = some 0)
    (hu : a.Unslept i) (hal : ¬ a.Alone p) (hy : Seeks (s.queued p i) (.tail .iret) y) :
    Reflects y (update loc p l) (a.put p { q with loc := l, standing := .asleep i }) := by
  obtain ⟨j, hjp, hj⟩ : ∃ j : Slot, j ≠ p ∧ s.status j = .ready := by
    simp only [State.Alone, not_forall, not_not] at hal
    obtain ⟨j, r, hjp, hr, hact⟩ := hal
    have hlt : j < MAX_PROCESS := (lt_of_getElem? hr).trans_le hx.tables.procs_le
    refine ⟨⟨j, hlt⟩, fun he => hjp (congrArg Fin.val he), ?_⟩
    have hf := hx.tables.fits ⟨j, hlt⟩ r hr
    rw [hact] at hf
    refine hf.resolve_right fun hrun => hjp ?_
    exact congrArg Fin.val (Option.some.inj ((hw.running _ hrun).symm.trans hp))
  refine hy.reflects_of_ready (hx.tables.sleep hq haw.not_asleep hi hu l) hx.int (j := j) ?_
  rw [Sched.queued_status, update_of_ne hjp, hj]

theorem Reflects.wake {i : SemId} (hr : a.procs[(h : ℕ)]? = some r) (hi : r.standing = .asleep i)
    (hlt : (i : ℕ) < a.sems.length)
    (hy : Seeks ((s.setSem i { s.sem i with val := (s.sem i).val + 1, head := s.next p }).woke h)
      (.tail .iret) y) :
    Reflects y (update loc p l) ((a.put p (q.to l)).put h { r with standing := .active }) := by
  have hhp : (h : ℕ) ≠ p := by
    intro he
    rw [he, hq] at hr
    exact haw.not_asleep i (Option.some.inj hr ▸ hi)
  have ht := hx.tables.goTo hq haw.not_asleep l
  have hr' : (a.put p (q.to l)).procs[(h : ℕ)]? = some r := by
    rwa [State.put, List.getElem?_set_ne hhp.symm]
  obtain ⟨-, -, hm⟩ := ht.wake hr' hi hlt
  rw [hx.tables.next p] at hy
  exact hy.reflects_of_ready hm hx.int (j := h) (by simp)

/-- The caller waits; if no process is ready, it goes on at once. -/
theorem Reflects.pause (hy : Seeks (s.setStatus p .waiting) (.tail .iret) y) :
    Reflects y (update loc p l) (a.put p { q with loc := l, standing := .aside }) ∨
    a.Alone p ∧
      Reflects y (update loc p l) (a.put p { q with loc := l, standing := .retired }) := by
  by_cases hn : pick (s.setStatus p .waiting).status = none
  · refine .inr ⟨fun j r' hjp hr' hact => ?_, ?_⟩
    · have hlt : j < MAX_PROCESS := (lt_of_getElem? hr').trans_le hx.tables.procs_le
      have hf := hx.tables.fits ⟨j, hlt⟩ r' hr'
      have hne : (⟨j, hlt⟩ : Slot) ≠ p := fun he => hjp (congrArg Fin.val he)
      obtain ⟨h1, h2⟩ := pick_eq_none.mp hn ⟨j, hlt⟩
      rw [Sched.setStatus_status, update_of_ne hne] at h1 h2
      rw [hact] at hf
      rcases hf with hf | hf
      · exact h1 hf
      · exact h2 hf
    · have ht := hx.tables.setStanding (σ := .retired) (t := .waiting) hq haw.not_asleep
        (by simp) (by simp [Allows]) l
      exact hy.reflects ht hx.int (fun _ => hx.current.put (.inr rfl)) (by simp) (by simp)
  · have ht := hx.tables.setStanding (σ := .aside) (t := .waiting) hq haw.not_asleep (by simp)
      rfl l
    exact .inl (hy.reflects ht hx.int (fun h0 => absurd h0 hn) (by simp) (by simp))

theorem Reflects.retired : Mirrors (s.ended p) (update loc p l)
    (a.put p { q with loc := l, standing := .retired }) :=
  (hx.tables.setStanding (σ := .retired) (t := .terminated) hq haw.not_asleep (by simp)
    (by simp [Allows]) l).emit (.terminated p)

theorem Reflects.retire : Reflects ⟨.shell, s.left p⟩ (update loc p l)
    (a.put p { q with loc := l, standing := .retired }) := by
  refine .of_mode ((hx.retired hq haw l).frame none _) (fun p' q' hp' => ?_) (by simp) hx.int
  cases hp'

theorem Reflects.leave (hp : s.curr = some p) (hm : ∀ f, m ≠ .fault f) :
    Reflects ⟨m, s.ended p⟩ (update loc p l)
      (a.put p { q with loc := l, standing := .retired }) := by
  refine ⟨hx.retired hq haw l, hx.current.put (.inr rfl), fun _ p' q' hp' hq' => ?_, hx.int, hm⟩
  rw [Sched.ended_curr, hp] at hp'
  cases hp'
  rw [State.put_procs_self hq] at hq'
  cases hq'
  rfl

theorem Reflects.leave_waking (hh : (s.ended p).status h = .waiting)
    (hno : ∀ r, a.procs[(h : ℕ)]? = some r → ∀ i, r.standing ≠ .asleep i)
    (hy : Seeks ((s.ended p).woke h) m y) :
    Reflects y (update loc p l) ((a.put p { q with loc := l, standing := .retired }).awaken h) := by
  have ht := hx.retired hq haw l
  obtain ⟨r, hr⟩ := ht.getElem?_of_ne_new (p := h) (by simp [hh])
  have hf := ht.fits h r hr
  rw [hh] at hf
  have hns : ∀ i, r.standing ≠ .asleep i := by
    rcases State.getElem?_put hr with ⟨-, rfl⟩ | ⟨-, hr⟩
    · simp
    · exact hno r hr
  have hready : ((s.ended p).woke h).status h = .ready := by simp
  cases hσ : r.standing with
  | active =>
    rw [hσ] at hf
    simp [Allows] at hf
  | asleep i => exact absurd hσ (hns i)
  | aside =>
    rw [State.awaken_of_eq hr hσ]
    have ht' := ht.setStanding' (σ := .active) (t := .ready) hr hns (by simp) (.inl rfl)
    exact hy.reflects_of_ready (ht'.emit (.woken h)) hx.int hready
  | retired =>
    rw [State.awaken_of_ne fun r' hr' => ?_]
    · have ht' := ht.setStanding' (σ := .retired) (t := .ready) hr hns (by simp)
        (by simp [Allows])
      have hself : ({ r with standing := .retired } : Proc L) = r := by rw [← hσ]
      rw [hself, State.put_self hr] at ht'
      exact hy.reflects_of_ready (ht'.emit (.woken h)) hx.int hready
    · rw [hr] at hr'
      cases hr'
      simp [hσ]

end Calls

/-! ### What a call is for its caller -/

section Ops

variable {next : Word → L} {child : L}

theorem op_semP (i : SemId) :
    (Instr.call (.semP i) next child : Instr L V).op = .wait i (next 0) := by
  simp [Instr.op]

theorem op_semV (i : SemId) :
    (Instr.call (.semV i) next child : Instr L V).op = .signal i (next 0) := by
  simp [Instr.op]

theorem op_waits (hc : c.Waits) :
    (Instr.call c next child : Instr L V).op = .pause (next 0) := by
  cases c <;> first | exact hc.elim | rfl

theorem op_exits (hc : c.Exits) :
    (Instr.call c next child : Instr L V).op = .leave (next 0) := by
  cases c <;> first | exact hc.elim | rfl

theorem Reflects.semP_id {x : View} {id : ℤ} (hx : Reflects x loc a)
    (hprop : Proper a p q (Instr.call (.semP id) next child : Instr L V).op) :
    ∃ i : SemId, id = i ∧ (i : ℕ) < a.sems.length := by
  rw [Instr.op] at hprop
  split_ifs at hprop with h0
  · exact ⟨⟨id.toNat, hprop.1.trans_le hx.tables.sems_le⟩, (Int.toNat_of_nonneg h0).symm, hprop.1⟩
  · exact hprop.elim

theorem Reflects.semV_id {x : View} {id : ℤ} (hx : Reflects x loc a)
    (hprop : Proper a p q (Instr.call (.semV id) next child : Instr L V).op) :
    ∃ i : SemId, id = i ∧ (i : ℕ) < a.sems.length := by
  rw [Instr.op] at hprop
  split_ifs at hprop with h0
  · exact ⟨⟨id.toNat, hprop.trans_le hx.tables.sems_le⟩, (Int.toNat_of_nonneg h0).symm, hprop⟩
  · exact hprop.elim

/-- **A system call that creates no process is a step of its caller.** -/
theorem Serves.reflects (hy : Serves p s c y) (hx : Reflects ⟨.user, s⟩ loc a) (hw : s.Wf)
    (hp : s.curr = some p) (hq : a.procs[(p : ℕ)]? = some q) (haw : q.Awake)
    (hprop : Proper a p q (Instr.call c next child : Instr L V).op) (hc : ¬ c.Spawns) {ret : Word}
    (hret : Returns s c ret) (hget : ∀ v, c = .getSem v → IsInt v)
    (hf : ∀ i : SemId, c = .semP i ∨ c = .semV i → ∀ f, y.mode ≠ .fault f)
    (hV : ∀ i : SemId, c = .semV i → IsInt ((s.sem i).val + 1)) :
    ∃ a', Does MAX_PROCESS N_SEMAPHORE a p q a' (Instr.call c next child : Instr L V).op ∧
      a'.procs.length = a.procs.length ∧ a'.shared = a.shared ∧
      Reflects y (update loc p (next ret)) a' := by
  have ht : Mirrors s loc a := hx.tables
  cases hy with
  | quiet hcq =>
    have hgo := (hx.goTo hq haw (m := .user) (by simp) (next ret)).emit (.goesOn p)
    cases c with
    | logo | busy | unknown | getPid | threadSelf =>
      exact ⟨_, ⟨_, ⟨ret, rfl⟩, rfl⟩, List.length_set, rfl, hgo⟩
    | file => exact hprop.elim
    | _ => exact hcq.elim
  | file => exact hprop.elim
  | full hs | spawned hs => exact (hc hs).elim
  | waits hcw hy =>
    have hret : ret = 0 := by cases c <;> first | exact hcw.elim | exact hret
    rw [op_waits hcw, hret]
    rcases hx.pause hq haw (next 0) hy with h | ⟨hal, h⟩
    · exact ⟨_, .inl rfl, List.length_set, rfl, h⟩
    · exact ⟨_, .inr ⟨hal, rfl⟩, List.length_set, rfl, h⟩
  | ends hce hpar =>
    have hret : ret = 0 := by cases c <;> first | exact hce.elim | exact hret
    rw [op_exits hce, hret]
    refine ⟨a.put p { q with loc := next 0, standing := .retired }, ?_, List.length_set, rfl,
      hx.leave hq haw (next 0) hp (by simp)⟩
    have hparent := ht.parent p q hq
    have ht' := hx.retired hq haw (next 0)
    cases hj : s.parent p with
    | none =>
      rw [hj] at hparent
      exact Counting.does_leave_none hparent
    | some j =>
      rw [hj] at hparent
      have hstay := State.awaken_of_ne (j := j) fun r hr hside => hpar j hj (by
        have := ht'.fits j r hr
        rwa [hside] at this)
      rw [← hstay]
      exact Counting.does_leave_some hparent
  | endsWaking hce hj hh hy =>
    have hret : ret = 0 := by cases c <;> first | exact hce.elim | exact hret
    rw [op_exits hce] at hprop ⊢
    rw [hret]
    rename_i j
    have hparent := ht.parent p q hq
    rw [hj] at hparent
    refine ⟨_, Counting.does_leave_some hparent, ?_, ?_,
      hx.leave_waking hq haw (next 0) hh (hprop j · hparent) hy⟩
    · unfold State.awaken
      split
      · split_ifs <;> simp [State.put]
      · simp [State.put]
    · unfold State.awaken
      split
      · split_ifs <;> rfl
      · rfl
  | leaves =>
    have hret : ret = 0 := hret
    rw [hret]
    exact ⟨_, rfl, List.length_set, rfl, hx.retire hq haw (next 0)⟩
  | noSem hu =>
    rename_i v
    have hret : ret = semWord none := by
      change ret = semWord ((unusedSem s.sem).map Fin.val) at hret
      rwa [hu] at hret
    rw [Instr.op] at hprop ⊢
    split_ifs at hprop ⊢ with h0
    · have hlen : N_SEMAPHORE ≤ a.sems.length := by
        by_contra hlt
        have := unusedSem_none hu ⟨a.sems.length, by omega⟩
        rw [ht.used] at this
        exact absurd this (lt_irrefl _)
      rw [hret]
      exact ⟨_, .inr ⟨hlen, rfl⟩, List.length_set, rfl, (hx.goTo hq haw (by simp) _).emit _⟩
    · exact hprop.elim
  | gotSem hu =>
    rename_i v i
    have hret : ret = semWord (some i) := by
      change ret = semWord ((unusedSem s.sem).map Fin.val) at hret
      rwa [hu] at hret
    rw [Instr.op] at hprop ⊢
    split_ifs at hprop ⊢ with h0
    · obtain ⟨hi, h⟩ := hx.getSem hq haw (next ret) hu (hget v rfl) h0
      rw [hret, hi] at h
      refine ⟨_, .inl ⟨?_, rfl⟩, List.length_set, rfl, ?_⟩
      · rw [← hi]
        exact i.isLt
      · rw [hret, hi]
        exact (h.emit _).emit _
    · exact hprop.elim
  | freed | badFreeSem => exact hprop.elim
  | badSemP hne =>
    obtain ⟨i, hi, -⟩ := hx.semP_id hprop
    exact absurd rfl (hf i (.inl (congrArg _ hi)) _)
  | badSemV hne =>
    obtain ⟨i, hi, -⟩ := hx.semV_id hprop
    exact absurd rfl (hf i (.inr (congrArg _ hi)) _)
  | taken hpos =>
    rename_i i
    have hret : ret = 0 := hret
    rw [op_semP] at hprop ⊢
    obtain ⟨hlt, -⟩ := hprop
    have hget := List.getElem?_eq_getElem hlt
    rcases ht.sem i _ hget with ⟨hu, hval, -⟩ | ⟨-, -, -, -, -, -, hval, -⟩
    · obtain ⟨n, hn⟩ : ∃ n, a.sems[(i : ℕ)] = n + 1 := ⟨a.sems[(i : ℕ)] - 1, by omega⟩
      have hint := hx.int _ (List.getElem_mem hlt)
      rw [hn] at hget hval hint
      refine ⟨_, .inl ⟨n, hget, rfl⟩, List.length_set, rfl, ?_⟩
      have hv : (s.sem i).val - 1 = n := by
        rw [hval]
        omega
      rw [hret, hv]
      exact hx.units hq haw (next 0) hlt hu ⟨by omega, by have := hint.2; omega⟩
    · omega
  | blocked hle hy =>
    rename_i i
    have hret : ret = 0 := hret
    rw [op_semP] at hprop ⊢
    obtain ⟨hlt, hal⟩ := hprop
    have hget := List.getElem?_eq_getElem hlt
    have h0 : a.sems[(i : ℕ)]? = some 0 := by
      rcases ht.sem i _ hget with ⟨-, hval, -⟩ | ⟨-, -, -, -, -, h0, -⟩
      · rw [hget, show a.sems[(i : ℕ)] = 0 by omega]
      · rw [hget, h0]
    obtain ⟨hu, hal⟩ := hal h0
    rw [hret]
    exact ⟨_, .inr ⟨h0, rfl⟩, List.length_set, rfl, hx.sleep hq haw (next 0) hp hw h0 hu hal hy⟩
  | released hle =>
    rename_i i
    have hret : ret = 0 := hret
    rw [op_semV] at hprop ⊢
    have hlt : (i : ℕ) < a.sems.length := hprop
    have hget := List.getElem?_eq_getElem hlt
    rcases ht.sem i _ hget with ⟨hu, hval, -⟩ | ⟨-, -, -, -, -, -, hval, -⟩
    · refine ⟨_, .inr ⟨hu, _, hget, rfl⟩, List.length_set, rfl, ?_⟩
      have hint := hV i rfl
      have hv : (s.sem i).val + 1 = (a.sems[(i : ℕ)] + 1 : ℕ) := by
        rw [hval]
        omega
      rw [hv] at hint
      rw [hret, hv]
      exact hx.units hq haw (next 0) hlt hu hint
    · omega
  | headless hneg hnone =>
    rename_i i
    exact absurd rfl (hf i (.inr rfl) _)
  | missed hneg hh hst =>
    rename_i i h
    rw [op_semV] at hprop
    have hlt : (i : ℕ) < a.sems.length := hprop
    rcases ht.sem i _ (List.getElem?_eq_getElem hlt) with
      ⟨-, hval, -⟩ | ⟨h', r, hr, hrs, -, -, -, hh'⟩
    · omega
    · rw [hh] at hh'
      cases hh'
      have := ht.fits h r hr
      rw [hrs] at this
      exact absurd this hst
  | wakes hneg hh hst hy =>
    rename_i i h
    have hret : ret = 0 := hret
    rw [op_semV] at hprop ⊢
    have hlt : (i : ℕ) < a.sems.length := hprop
    rcases ht.sem i _ (List.getElem?_eq_getElem hlt) with
      ⟨-, hval, -⟩ | ⟨h', r, hr, hrs, -, -, -, hh'⟩
    · omega
    · rw [hh] at hh'
      cases hh'
      rw [hret]
      exact ⟨_, .inl ⟨h, r, hr, hrs, rfl⟩, by simp [State.put], rfl,
        hx.wake hq haw (next 0) hr hrs hlt hy⟩

end Ops

end AdvancedOS
