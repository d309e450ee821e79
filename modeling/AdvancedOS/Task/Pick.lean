import AdvancedOS.Task.Code

/-!
# The choice of the next process

What `proc_pick` returns, for any table of statuses.

* `pick_eq_none`: nothing is returned only if no process is ready or running;
* `pick_eq_some`: the process that is returned is ready, or it is the running one and nobody is
  ready;
* `RoundRobin`: what a choice in turn is; `pick_roundRobin`: **`proc_pick` chooses in turn, and
  `schedule_proc` gives the processor to the process chosen.**
-/

namespace AdvancedOS

open Cyclic

variable {t : Slot → Status} {i j c : Slot} {start : ℕ}

theorem runningSlot_eq_none : runningSlot t = none ↔ ∀ i, t i ≠ .running := by
  simp [runningSlot, List.find?_eq_none]

theorem runningSlot_eq_some (h : runningSlot t = some c) : t c = .running := by
  have := List.find?_some h
  simpa using this

theorem readyFrom_eq_none (h : start ≤ MAX_PROCESS) :
    readyFrom t start = none ↔ ∀ i, t i ≠ .ready :=
  cyclicFind_eq_none h

theorem readyFrom_eq_some (h : readyFrom t start = some i) : t i = .ready :=
  cyclicFind_sound h

theorem slot_succ_le (c : Slot) : 1 + (c : ℕ) ≤ MAX_PROCESS := by
  have := c.isLt
  omega

theorem pick_eq_none : pick t = none ↔ ∀ i, t i ≠ .ready ∧ t i ≠ .running := by
  unfold pick
  split
  · rename_i c hc
    simp only [Option.or_eq_none_iff, reduceCtorEq, and_false, false_iff, not_forall]
    exact ⟨c, fun h => h.2 (runningSlot_eq_some hc)⟩
  · rename_i hr
    rw [readyFrom_eq_none (Nat.zero_le _)]
    exact ⟨fun h i => ⟨h i, runningSlot_eq_none.mp hr i⟩, fun h i => (h i).1⟩

/-- The process that is returned is ready, or it is the running one and nobody is ready. -/
theorem pick_eq_some (h : pick t = some i) :
    t i = .ready ∨ t i = .running ∧ ∀ j, t j ≠ .ready := by
  unfold pick at h
  split at h
  · rename_i c hc
    rcases Option.or_eq_some_iff.mp h with h | ⟨hn, hi⟩
    · exact .inl (readyFrom_eq_some h)
    · cases hi
      exact .inr ⟨runningSlot_eq_some hc, (readyFrom_eq_none (slot_succ_le _)).mp hn⟩
  · exact .inl (readyFrom_eq_some h)

theorem pick_ne {st : Status} (h : pick t = some i) (hst : st ≠ .ready) (hst' : st ≠ .running) :
    t i ≠ st := by
  rcases pick_eq_some h with h | ⟨h, -⟩
  · rw [h]
    exact hst.symm
  · rw [h]
    exact hst'.symm

theorem pick_ne_new (h : pick t = some i) : t i ≠ .new := pick_ne h (by decide) (by decide)

theorem pick_ne_none (h : t i = .ready) : pick t ≠ none :=
  fun hn => (pick_eq_none.mp hn i).1 h

/-! ## The choice in turn -/

/-- What the choice `r` in turn is. The slot at the cyclic distance `d` after `c` is
`behind MAX_PROCESS c d`. -/
structure RoundRobin (t : Slot → Status) (r : Option Slot) : Prop where
  /-- Behind the running process, the ready process at the smallest distance. -/
  next : ∀ c, t c = .running → (∃ i, t i = .ready) → ∃ d, 1 ≤ d ∧ d < MAX_PROCESS ∧
    r = some (behind MAX_PROCESS c d) ∧ t (behind MAX_PROCESS c d) = .ready ∧
    ∀ e, 1 ≤ e → e < d → t (behind MAX_PROCESS c e) ≠ .ready
  /-- If no process is running, the ready process in the first slot. -/
  first : (∀ c, t c ≠ .running) → (∃ i, t i = .ready) →
    ∃ i, r = some i ∧ t i = .ready ∧ ∀ j, t j = .ready → i ≤ j
  /-- If no process is ready, the running one. -/
  stay : ∀ c, t c = .running → (∀ i, t i ≠ .ready) → r = some c
  /-- Nobody, exactly if no process is ready or running. -/
  nobody : r = none ↔ ∀ i, t i ≠ .ready ∧ t i ≠ .running

theorem pick_of_running (h : t c = .running) (hone : ∀ i j, t i = .running → t j = .running → i = j) :
    pick t = (readyFrom t (1 + c)).or (some c) := by
  cases hr : runningSlot t with
  | none => exact absurd h (runningSlot_eq_none.mp hr c)
  | some c' =>
    rw [pick, hr, hone c' c (runningSlot_eq_some hr) h]

theorem pick_of_idle (h : ∀ i, t i ≠ .running) : pick t = readyFrom t 0 := by
  rw [pick, runningSlot_eq_none.mpr h]

theorem pick_next (h : t c = .running) (hone : ∀ i j, t i = .running → t j = .running → i = j)
    (hi : t i = .ready) : ∃ d, 1 ≤ d ∧ d < MAX_PROCESS ∧ pick t = some (behind MAX_PROCESS c d) ∧
      t (behind MAX_PROCESS c d) = .ready ∧
      ∀ e, 1 ≤ e → e < d → t (behind MAX_PROCESS c e) ≠ .ready := by
  cases hr : readyFrom t (1 + c) with
  | none => exact absurd hi ((readyFrom_eq_none (slot_succ_le c)).mp hr i)
  | some j =>
    have hj : t j = .ready := readyFrom_eq_some hr
    obtain ⟨k, hk, rfl, hmin⟩ := cyclicFind_nearest hr
    rw [behind_succ] at hr hj
    -- one round further the search is back at the running process
    have hlt : k + 1 < MAX_PROCESS := by
      refine lt_of_le_of_ne hk fun hround => ?_
      have hback : behind MAX_PROCESS c (k + 1) = c := by
        rw [hround]
        apply Fin.ext
        rw [behind, Fin.val_ofNat, Nat.add_mod_left, Nat.mod_eq_of_lt c.isLt]
      rw [hback, h] at hj
      exact Status.noConfusion hj
    refine ⟨k + 1, Nat.le_add_left 1 k, hlt, ?_, hj, fun e he hek => ?_⟩
    · rw [pick_of_running h hone, hr]
      rfl
    · obtain ⟨e, rfl⟩ := Nat.exists_eq_add_of_le' he
      rw [← behind_succ]
      exact hmin e (Nat.lt_of_succ_lt_succ hek)

theorem pick_first (h : ∀ c, t c ≠ .running) (hi : t i = .ready) :
    ∃ i, pick t = some i ∧ t i = .ready ∧ ∀ j, t j = .ready → i ≤ j := by
  rw [pick_of_idle h]
  cases hr : readyFrom t 0 with
  | none => exact absurd hi ((readyFrom_eq_none (Nat.zero_le _)).mp hr i)
  | some j =>
    refine ⟨j, rfl, readyFrom_eq_some hr, fun j' hj' => ?_⟩
    have hle := cyclicFind_first (Nat.zero_le _) hr hj'
    rwa [hops, hops, if_pos (Nat.zero_le _), if_pos (Nat.zero_le _)] at hle

theorem pick_stay (h : t c = .running) (hone : ∀ i j, t i = .running → t j = .running → i = j)
    (hn : ∀ i, t i ≠ .ready) : pick t = some c := by
  rw [pick_of_running h hone, (readyFrom_eq_none (slot_succ_le c)).mpr hn]
  rfl

theorem scheduleProc_of_pick {k : Kernel} (h : pick k.statuses = some i) :
    scheduleProc k = procSwitch i (k.emit (.picked k.statuses (some i))) := by
  have hpick : procPick k = .ok (some i) (k.emit (.picked k.statuses (some i))) := by
    rw [← h]
    rfl
  simp only [scheduleProc, bind, EStateM.bind, hpick]

/-- **`proc_pick` chooses in turn, and a process that is ready is not left waiting while the processor
is given to nobody.** -/
theorem pick_roundRobin (t : Slot → Status)
    (hone : ∀ i j, t i = .running → t j = .running → i = j) :
    RoundRobin t (pick t) ∧ ∀ k : Kernel, k.statuses = t → (∃ i, t i = .ready) →
      ∃ p, t p = .ready ∧ scheduleProc k = procSwitch p (k.emit (.picked t (some p))) := by
  refine ⟨⟨?_, ?_, ?_, pick_eq_none⟩, ?_⟩
  · intro c hc ⟨i, hi⟩
    exact pick_next hc hone hi
  · intro h ⟨i, hi⟩
    exact pick_first h hi
  · intro c hc hn
    exact pick_stay hc hone hn
  · intro k hk ⟨i, hi⟩
    subst hk
    cases hp : pick k.statuses with
    | none => exact absurd hp (pick_ne_none hi)
    | some p =>
      refine ⟨p, ?_, scheduleProc_of_pick hp⟩
      rcases pick_eq_some hp with h | ⟨-, hn⟩
      · exact h
      · exact absurd hi (hn i)

/-- One process is running, and the others are ready. -/
def busyTable : Slot → Status := Function.update (fun _ => .ready) 3 .running

theorem pick_roundRobin_busy :
    RoundRobin busyTable (pick busyTable) ∧
      ∀ k : Kernel, k.statuses = busyTable → (∃ i, busyTable i = .ready) →
        ∃ p, busyTable p = .ready ∧
          scheduleProc k = procSwitch p (k.emit (.picked busyTable (some p))) :=
  pick_roundRobin busyTable (by decide)

end AdvancedOS
