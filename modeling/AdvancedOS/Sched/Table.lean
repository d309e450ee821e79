import AdvancedOS.Machine.Reach

/-!
# The process table in reachable states

* `running_is_current`: **at most one process runs, and it is the current one**;
* `Moves.not_new`: an allocated entry is never free again;
* `free_entries`: **a free entry is found as long as fewer than `MAX_PROCESS` identifiers have been
  given, and without one `do_fork` and `do_thread_create` fail and change nothing.**
-/

namespace AdvancedOS

/-! ## The running process -/

/-- **At most one process runs, and it is the current one.** -/
theorem running_is_current {m : Machine} (h : Reachable anyStep m) :
    (∀ i j, (m.k.procList i).status = .running → (m.k.procList j).status = .running → i = j) ∧
      (∀ i, (m.k.procList i).status = .running → m.k.currProc = some i) ∧
      (m.k.currProc = none → ∀ i, (m.k.procList i).status ≠ .running) := by
  have hr : ∀ i, (m.k.procList i).status = .running → m.k.currProc = some i := h.wf.s.running
  refine ⟨fun i j hi hj => ?_, hr, fun hn i hi => ?_⟩
  · exact Option.some.inj ((hr i hi).symm.trans (hr j hj))
  · rw [hr i hi] at hn
    cases hn

/-- Two processes, the first one running. -/
theorem running_is_current_two : ∃ m : Machine, (m.k.procList 0).status = .running ∧
    (∀ i j, (m.k.procList i).status = .running → (m.k.procList j).status = .running → i = j) ∧
      (∀ i, (m.k.procList i).status = .running → m.k.currProc = some i) ∧
      (m.k.currProc = none → ∀ i, (m.k.procList i).status ≠ .running) := by
  obtain ⟨m, hm, hP⟩ := RunsTo.of_exec (G := anyStep.on)
    (P := fun m => (m.k.procList 0).status = .running) [.load, .load, .schedule]
    (by decide +kernel) (by decide +kernel)
  exact ⟨m, hP, running_is_current hm⟩

/-! ## Free entries -/

section

variable {s s' : Sched} {p i : Slot} {t : Slot → Status} {st : Status}

theorem update_ne_new (hst : st ≠ .new) (hi : t i ≠ .new) : Function.update t p st i ≠ .new := by
  by_cases h : i = p
  · subst h
    simpa using hst
  · simpa [h] using hi

theorem Seeks.not_new {m : Mode} {y : View} (h : Seeks s m y) (hi : s.status i ≠ .new) :
    y.s.status i ≠ .new := by
  cases h with
  | nobody => exact hi
  | user hq | lost hq => exact fun hn => hi ((promote_pick hq (by decide) (by decide)).mp hn)

theorem Serves.not_new {c : Call} {y : View} (h : Serves p s c y) (hi : s.status i ≠ .new) :
    y.s.status i ≠ .new := by
  cases h with
  | spawned | ends | leaves => exact update_ne_new (by decide) hi
  | waits _ hy | blocked _ hy => exact hy.not_new (update_ne_new (by decide) hi)
  | endsWaking _ _ _ hy =>
    exact hy.not_new (update_ne_new (by decide) (update_ne_new (by decide) hi))
  | wakes _ _ _ hy => exact hy.not_new (update_ne_new (by decide) hi)
  | _ => exact hi

theorem Moves.not_new {x y : View} {c : Option Call} (h : Moves x c y)
    (hi : x.s.status i ≠ .new) : y.s.status i ≠ .new := by
  cases h with
  | served _ _ hy => exact hy.not_new hi
  | sought _ hy => exact hy.not_new hi
  | created => exact update_ne_new (by decide) hi
  | finished | idle | failed => exact hi

theorem Sched.Wf.exists_new (h : s.Wf) :
    (∃ i, s.status i = .new) ↔ s.currPid.toNat < MAX_PROCESS := by
  have hcard : s.currPid.toNat < MAX_PROCESS ↔ s.inUse ≠ Finset.univ := by
    rw [h.count, ← Finset.card_lt_iff_ne_univ]
    simp
  rw [hcard, ne_eq, Finset.eq_univ_iff_forall, not_forall]
  simp [Sched.inUse]

end

theorem procAlloc_eq_none {k : Kernel} (h : freeSlot k.procList = none) :
    procAlloc k = .ok none k := by
  rw [← ends_result procAlloc fun r => r = .ok none k]
  simp [procAlloc, h]

theorem procAlloc_eq_some {k : Kernel} {i : Slot} (h : freeSlot k.procList = some i) :
    ∃ k', procAlloc k = .ok (some i) k' := by
  rw [← ends_result procAlloc fun r => ∃ k', r = .ok (some i) k']
  simp [procAlloc, h]

theorem freeSlot_none_iff (k : Kernel) :
    freeSlot k.procList = none ↔ ∀ i, (k.procList i).status ≠ .new := by
  simp [freeSlot, List.find?_eq_none]

theorem doFork_full {k : Kernel} (h : ∀ i, (k.procList i).status ≠ .new) :
    doFork k = .ok (-1) (k.setFlag true) := by
  have hn := (freeSlot_none_iff k).mpr h
  rw [← ends_result doFork fun r => r = .ok (-1) (k.setFlag true)]
  simp [doFork, procAlloc, hn, Kernel.setFlag]

theorem doThreadCreate_full {k : Kernel} (h : ∀ i, (k.procList i).status ≠ .new)
    (tid func args : Word) : doThreadCreate tid func args k = .ok (-1) (k.setFlag true) := by
  have hn := (freeSlot_none_iff k).mpr h
  rw [← ends_result (doThreadCreate tid func args) fun r => r = .ok (-1) (k.setFlag true)]
  simp [doThreadCreate, procAlloc, hn, Kernel.setFlag]

/-- **A free entry is found as long as fewer than `MAX_PROCESS` identifiers have been given; an
entry that was allocated is never free again, and without a free entry `do_fork` and
`do_thread_create` fail and change nothing.** -/
theorem free_entries {m : Machine} (h : Reachable anyStep m) :
    ((∃ i k', procAlloc m.k = .ok (some i) k') ↔ ∃ i, (m.k.procList i).status = .new) ∧
      ((∃ i k', procAlloc m.k = .ok (some i) k') ↔ m.k.currPid.toNat < MAX_PROCESS) ∧
      (∀ l m', step m l = some m' → ∀ i, (m.k.procList i).status ≠ .new →
        (m'.k.procList i).status ≠ .new) ∧
      ∀ k : Kernel, (∀ i, (k.procList i).status ≠ .new) →
        doFork k = .ok (-1) (k.setFlag true) ∧
        ∀ tid func args, doThreadCreate tid func args k = .ok (-1) (k.setFlag true) := by
  have halloc : (∃ i k', procAlloc m.k = .ok (some i) k') ↔
      ∃ i, (m.k.procList i).status = .new := by
    constructor
    · rintro ⟨i, k', hk⟩
      by_contra hn
      rw [procAlloc_eq_none ((freeSlot_none_iff m.k).mpr fun j hj => hn ⟨j, hj⟩)] at hk
      cases hk
    · rintro ⟨i, hi⟩
      obtain ⟨j, hj⟩ := Option.ne_none_iff_exists'.mp
        fun hn => (freeSlot_none_iff m.k).mp hn i hi
      exact ⟨j, procAlloc_eq_some hj⟩
  refine ⟨halloc, halloc.trans h.wf.s.exists_new, ?_, ?_⟩
  · intro l m' hl i hi
    exact (step_moves h.wf hl).not_new hi
  · exact fun k hk => ⟨doFork_full hk, doThreadCreate_full hk⟩

/-- Twenty programs are loaded: no entry is left. -/
theorem free_entries_twenty : ∃ m : Machine, m.k.currPid = 20 ∧
    (((∃ i k', procAlloc m.k = .ok (some i) k') ↔ ∃ i, (m.k.procList i).status = .new) ∧
      ((∃ i k', procAlloc m.k = .ok (some i) k') ↔ m.k.currPid.toNat < MAX_PROCESS) ∧
      (∀ l m', step m l = some m' → ∀ i, (m.k.procList i).status ≠ .new →
        (m'.k.procList i).status ≠ .new) ∧
      ∀ k : Kernel, (∀ i, (k.procList i).status ≠ .new) →
        doFork k = .ok (-1) (k.setFlag true) ∧
        ∀ tid func args, doThreadCreate tid func args k = .ok (-1) (k.setFlag true)) := by
  obtain ⟨m, hm, hP⟩ := RunsTo.of_exec (G := anyStep.on) (P := fun m => m.k.currPid = 20)
    (List.replicate 20 .load) (by decide +kernel) (by decide +kernel)
  exact ⟨m, hP, free_entries hm⟩

/-- Twenty programs are loaded and one of them exits: nineteen entries are in use, and none is
free. -/
theorem no_entry_after_exit : ∃ m : Machine, Reachable anyStep m ∧
    (Finset.univ.filter fun i =>
      (m.k.procList i).status ∈ [.ready, .running, .waiting]).card < MAX_PROCESS ∧
    ∀ i k', procAlloc m.k ≠ .ok (some i) k' := by
  obtain ⟨m, hm, hcard, hn⟩ := RunsTo.of_exec (G := anyStep.on)
    (P := fun m => (Finset.univ.filter fun i =>
      (m.k.procList i).status ∈ [Status.ready, .running, .waiting]).card < MAX_PROCESS ∧
      freeSlot m.k.procList = none)
    (List.replicate 20 .load ++ [.schedule, .sys 12]) (by decide +kernel) (by decide +kernel)
  refine ⟨m, hm, hcard, fun i k' hk => ?_⟩
  rw [procAlloc_eq_none hn] at hk
  cases hk

end AdvancedOS
