import AdvancedOS.Programs.Model

/-!
# What the system calls of a program return

The step relation of the scheduling view does not show the value in `eax`, nor which of the free
entries a new process is given.

* `handler_spawns`: `do_fork` and `do_thread_create` take the first entry that is new; `do_fork`
  returns the new identifier and `do_thread_create` returns `0`, or both return `-1`;
* `eaxOf_handler`: `do_getsem` returns the first index that is not used, or `-1`;
* `semP_mode`, `semV_mode`: **on a semaphore of the table only an overflow of its value is
  undefined, unless the queue is empty below zero.**
-/

namespace AdvancedOS

variable {k : Kernel} {p i : Slot} {t : Trap} {reads : Bool} {c : Call}

/-! ## The first entry -/

theorem find_finRange_first {n : ℕ} {P : Fin n → Bool} {i : Fin n}
    (h : (List.finRange n).find? P = some i) (j : Fin n) (hj : j < i) : P j = false := by
  obtain ⟨-, m, hm, hi, hfirst⟩ := List.find?_eq_some_iff_getElem.mp h
  have him : (i : ℕ) = m := by
    rw [← hi]
    simp
  have hjm : (j : ℕ) < m := him ▸ hj
  simpa using hfirst j hjm

theorem freeSlot_first {τ : Slot → Process} (h : freeSlot τ = some i) (j : Slot) (hj : j < i) :
    (τ j).status ≠ .new := by
  simpa using find_finRange_first h j hj

theorem unusedSem_first {τ : SemId → Semaphore} {s : SemId} (h : unusedSem τ = some s) (j : SemId)
    (hj : j < s) : (τ j).used = true := by
  simpa using find_finRange_first h j hj

theorem unusedSem_some {τ : SemId → Semaphore} {s : SemId} (h : unusedSem τ = some s) :
    (τ s).used = false := by
  simpa using List.find?_some h

theorem unusedSem_none {τ : SemId → Semaphore} (h : unusedSem τ = none) (s : SemId) :
    (τ s).used = true := by
  simpa using List.find?_eq_none.mp h s (List.mem_finRange s)

/-! ## Processes -/

theorem sched_entered : (k.entered p t c).sched = k.sched.emit (.call p c) := by
  rw [Kernel.entered, sched_emit, sched_save]
  rfl

/-- How a call of `p` that creates a process ends, with the value in `eax`. -/
inductive Spawning (p : Slot) (s : Sched) (c : Call) : Word → View → Prop
  | full : (∀ j, s.status j ≠ .new) → Spawning p s c (-1) ⟨.tail .iret, s⟩
  | first {i : Slot} : s.status i = .new → (∀ j, j < i → s.status j ≠ .new) →
    Spawning p s c (if c = .fork then s.currPid + 1 else 0)
      ⟨.user, (s.spawn i (some p)).emit (.goesOn p)⟩

theorem handler_result {R : Word → View → Prop} (hp : k.currProc = some p)
    (h : Ends (handlerMain reads c) (k.entered p t c)
      (fun a k' => R a (settle (.ok a k')).view) fun e k' => R 0 (leave e k').view) :
    R (eaxOf (handler t c reads k)) (settle (handler t c reads k)).view := by
  rw [← ends_result (handler t c reads) fun r => R (eaxOf r) (settle r).view,
    ends_handler t reads hp]
  exact h

theorem spawned_spawning {k : Kernel} (hp : k.currProc = some p)
    (hi : freeSlot k.procList = some i) {a : Word} (r : Regs) (ter : ℕ) (m : Mem)
    (ha : a = if c = .fork then k.currPid + 1 else 0) :
    Spawning p k.sched c a (settle (.ok a (k.spawn i r (some p) ter m))).view := by
  rw [settle_back rfl (show (k.spawn i r (some p) ter m).currProc = some p from hp), sched_spawn, ha]
  exact .first (freeSlot_eq_some hi) fun j hj => freeSlot_first hi j hj

/-- **A new process is given the first entry that is new.** -/
theorem handler_spawning (hc : c.Spawns) (hp : k.currProc = some p) :
    Spawning p (k.sched.emit (.call p c)) c (eaxOf (handler t c reads k))
      (settle (handler t c reads k)).view := by
  refine handler_result (R := Spawning p _ c) hp ?_
  rw [← sched_entered (t := t)]
  have hp' : (k.entered p t c).currProc = some p := hp
  have hfull : ∀ k' : Kernel, freeSlot k'.procList = none →
      Spawning p k'.sched c (-1) (settle (.ok (-1) (k'.setFlag true))).view := by
    intro k' hn
    rw [settle_tail rfl]
    exact .full (freeSlot_eq_none hn)
  cases c with
  | fork =>
    rw [handlerMain, ends_doFork hp']
    exact ⟨hfull _, fun i hi => spawned_spawning hp' hi _ _ _ rfl⟩
  | threadCreate tid func args =>
    rw [handlerMain, ends_doThreadCreate tid func args hp']
    exact ⟨hfull _, fun i hi => spawned_spawning hp' hi _ _ _ rfl⟩
  | _ => exact hc.elim

/-! ## Semaphores -/

/-- The value that `do_getsem` returns for the semaphore with this index. -/
def semWord : Option ℕ → Word
  | some s => BitVec.ofNat 32 s
  | none => -1

/-- What is in `eax` after the calls whose value a program uses, or that return none. -/
def Returns (s : Sched) (c : Call) (a : Word) : Prop :=
  match c with
  | .getSem _ => a = semWord ((unusedSem s.sem).map Fin.val)
  | .semP _ | .semV _ | .wait | .threadJoin _ | .exit | .threadExit | .processReturn => a = 0
  | _ => True

theorem eaxOf_handler (hp : k.currProc = some p) :
    Returns k.sched c (eaxOf (handler t c reads k)) := by
  refine handler_result (R := fun a _ => Returns k.sched c a) hp ?_
  cases c with
  | getSem v =>
    rw [handlerMain, ends_doGetsem]
    refine ⟨fun hn => ?_, fun s hs => ?_⟩
    · change -1 = semWord ((unusedSem k.semList).map Fin.val)
      rw [show unusedSem k.semList = none from hn]
      rfl
    · change BitVec.ofNat 32 s = semWord ((unusedSem k.semList).map Fin.val)
      rw [show unusedSem k.semList = some s from hs]
      rfl
  | semP | semV | wait | threadJoin | exit | threadExit =>
    rw [handlerMain, ends_bind]
    exact .of_forall (fun _ _ => (ends_pure _).mpr (Eq.refl 0)) fun _ _ => Eq.refl 0
  | processReturn =>
    have hp' : (k.entered p t .processReturn).currProc = some p := hp
    rw [handlerMain, ends_leaveProc hp']
    exact Eq.refl 0
  | _ => exact .of_forall (fun _ _ => trivial) fun _ _ => trivial

theorem toUser_mode (k : Kernel) : (toUser k).mode = .user := by
  unfold toUser
  cases k.currProc <;> rfl

theorem land_mode (cpu : Cpu) (f : Fault) : (land cpu k).mode ≠ .fault f := by
  unfold land
  split_ifs
  · simp [toUser_mode]
  · simp

theorem settle_ok_mode (a : Word) (f : Fault) : (settle (.ok a k)).mode ≠ .fault f := by
  change (if k.intFlag then (⟨.tail .iret, k⟩ : Machine) else toUser k).mode ≠ _
  split_ifs
  · simp
  · simp [toUser_mode]

theorem semP_mode (s : SemId) (hp : k.currProc = some p) (hv : IsInt ((k.semList s).val - 1))
    (f : Fault) : (settle (handler t (.semP s) reads k)).mode ≠ .fault f := by
  refine handler_result (R := fun _ y => y.mode ≠ .fault f) hp ?_
  have hp' : (k.entered p t (.semP s)).currProc = some p := hp
  rw [handlerMain, ends_bind, ends_doSemP _ hp']
  refine ⟨fun hn => (hn s rfl).elim, fun s' hs => ?_⟩
  obtain rfl : s = s' := Fin.ext (by exact_mod_cast hs)
  refine ⟨fun hn => (hn hv).elim, fun _ => ⟨fun _ => ?_, fun _ => ?_⟩⟩
  · have hq : ((k.entered p t (.semP s)).enqueue p s
        (((k.entered p t (.semP s)).semList s).val - 1)).currProc = some p := hp
    rw [ends_block hq]
    exact ⟨fun _ => (ends_pure _).mpr (settle_ok_mode 0 f), fun q _ => land_mode _ f⟩
  · exact (ends_pure _).mpr (settle_ok_mode 0 f)

theorem semV_mode (s : SemId) (hp : k.currProc = some p) :
    (¬ IsInt ((k.semList s).val + 1) →
      (settle (handler t (.semV s) reads k)).mode = .fault .overflow) ∧
    (IsInt ((k.semList s).val + 1) → ((k.semList s).val < 0 → (k.semList s).head ≠ none) →
      ∀ f, (settle (handler t (.semV s) reads k)).mode ≠ .fault f) := by
  have hp' : (k.entered p t (.semV s)).currProc = some p := hp
  constructor
  · intro hv
    refine handler_result (R := fun _ y => y.mode = .fault .overflow) hp ?_
    rw [handlerMain, ends_bind, ends_doSemV _ hp']
    refine ⟨fun hn => (hn s rfl).elim, fun s' hs => ?_⟩
    obtain rfl : s = s' := Fin.ext (by exact_mod_cast hs)
    exact ⟨fun _ => rfl, fun h => (hv h).elim⟩
  · intro hv hh f
    refine handler_result (R := fun _ y => y.mode ≠ .fault f) hp ?_
    rw [handlerMain, ends_bind, ends_doSemV _ hp']
    refine ⟨fun hn => (hn s rfl).elim, fun s' hs => ?_⟩
    obtain rfl : s = s' := Fin.ext (by exact_mod_cast hs)
    refine ⟨fun hn => (hn hv).elim, fun _ => ⟨fun h0 => ⟨fun hn => ?_, fun h _ => ?_⟩, fun _ => ?_⟩⟩
    · exact (hh (by have : ((k.entered p t (.semV s)).semList s).val = (k.semList s).val := rfl
                    omega) hn).elim
    · rw [ends_wakeup]
      exact ⟨fun _ => (ends_pure _).mpr (settle_ok_mode 0 f), fun i _ q _ => land_mode _ f⟩
    · exact (ends_pure _).mpr (settle_ok_mode 0 f)

end AdvancedOS
