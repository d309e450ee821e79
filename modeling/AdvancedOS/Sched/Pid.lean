import AdvancedOS.Machine.Reach

/-!
# Process identifiers

* `wakeup_waiting`, `wakeup_other`: what `wakeup` does when it is given the identifier of an
  allocated entry;
* `pids_identify`: **the identifiers of allocated entries are pairwise distinct and fit a byte, so
  `wakeup` wakes the entry that it is told and no other.**
-/

namespace AdvancedOS

open Function (update)

variable {k : Kernel} {p : Slot}

/-- An identifier of an allocated entry fits the parameter of `wakeup`. -/
theorem Sched.Wf.pid_lt {s : Sched} (h : s.Wf) (hp : s.status p ≠ .new) :
    (s.pid p).toNat ≤ 255 := by
  have hm : MAX_PROCESS = 20 := rfl
  have hle := h.pid_le p hp
  have hcount := h.currPid_le
  omega

theorem wakeup_waiting (hw : k.sched.Wf) (hp : (k.procList p).status = .waiting) :
    ∃ c q k', wakeup ((k.procList p).pid.setWidth 8) k = .error (.resumed c) k' ∧
      pick (update k.statuses p .ready) = some q ∧
      k'.statuses = promote q (update k.statuses p .ready) := by
  have hnew : (k.procList p).status ≠ .new := by
    rw [hp]
    decide
  -- the state in which `schedule_proc` is called
  let k₁ := ((k.setFlag false).setStatus p .ready).emit (.woken p)
  have hs : k₁.sched = k.sched.woke p := by
    rw [sched_emit, sched_setStatus]
    rfl
  have ht : k₁.statuses = update k.statuses p .ready := congrArg Sched.status hs
  rw [← ends_result (wakeup _) fun r => ∃ c q k', r = .error (.resumed c) k' ∧
    pick (update k.statuses p .ready) = some q ∧
    k'.statuses = promote q (update k.statuses p .ready), ends_wakeup, waitingSlot_pid hw hnew,
    if_pos hp]
  refine ⟨fun hn => (by cases hn), ?_⟩
  rintro _ ⟨⟩ q hq
  refine ⟨_, q, _, rfl, ht ▸ hq, ?_⟩
  have hsw := sched_switchTo (k := k₁) (q := q) (hs ▸ hw.woke hnew) hq
  have := congrArg Sched.status hsw
  rwa [hs] at this

/-- `wakeup` of an allocated entry that does not wait changes nothing but the interrupt flag. -/
theorem wakeup_other (hw : k.sched.Wf) (hnew : (k.procList p).status ≠ .new)
    (hp : (k.procList p).status ≠ .waiting) :
    wakeup ((k.procList p).pid.setWidth 8) k = .ok () (k.setFlag true) := by
  rw [← ends_result (wakeup _) fun r => r = .ok () (k.setFlag true), ends_wakeup,
    waitingSlot_pid hw hnew, if_neg hp]
  exact ⟨fun _ => rfl, fun i hi => by cases hi⟩

/-- **In every reachable state the identifiers of allocated entries are pairwise distinct, between 1
and 255 and not above `curr_pid`; `wakeup` of the identifier of a waiting process makes it ready and
changes no other status but by the switch to the process `q` that `proc_pick` chooses, and `wakeup`
of the identifier of any other entry changes no status.** -/
theorem pids_identify {m : Machine} (h : Reachable anyStep m) :
    (∀ i j, (m.k.procList i).status ≠ .new → (m.k.procList j).status ≠ .new →
      (m.k.procList i).pid = (m.k.procList j).pid → i = j) ∧
    ∀ p, (m.k.procList p).status ≠ .new →
      1 ≤ (m.k.procList p).pid.toNat ∧ (m.k.procList p).pid.toNat ≤ 255 ∧
      (m.k.procList p).pid.toNat ≤ m.k.currPid.toNat ∧
      ((m.k.procList p).status = .waiting →
        ∃ c q k', wakeup ((m.k.procList p).pid.setWidth 8) m.k = .error (.resumed c) k' ∧
          pick (update m.k.statuses p .ready) = some q ∧
          k'.statuses = promote q (update m.k.statuses p .ready)) ∧
      ((m.k.procList p).status ≠ .waiting →
        wakeup ((m.k.procList p).pid.setWidth 8) m.k = .ok () (m.k.setFlag true)) := by
  have hw : m.k.sched.Wf := h.wf.s
  refine ⟨hw.pid_inj, fun p hp => ?_⟩
  have hpos : 0 < (m.k.procList p).pid.toNat := hw.pid_pos p hp
  exact ⟨hpos, hw.pid_lt hp, hw.pid_le p hp, wakeup_waiting hw, wakeup_other hw hp⟩

/-- Two processes, the first of which waits. -/
theorem pids_identify_two : ∃ m : Machine, (m.k.procList 0).status = .waiting ∧
    (∀ i j, (m.k.procList i).status ≠ .new → (m.k.procList j).status ≠ .new →
      (m.k.procList i).pid = (m.k.procList j).pid → i = j) ∧
    ∀ p, (m.k.procList p).status ≠ .new →
      1 ≤ (m.k.procList p).pid.toNat ∧ (m.k.procList p).pid.toNat ≤ 255 ∧
      (m.k.procList p).pid.toNat ≤ m.k.currPid.toNat ∧
      ((m.k.procList p).status = .waiting →
        ∃ c q k', wakeup ((m.k.procList p).pid.setWidth 8) m.k = .error (.resumed c) k' ∧
          pick (update m.k.statuses p .ready) = some q ∧
          k'.statuses = promote q (update m.k.statuses p .ready)) ∧
      ((m.k.procList p).status ≠ .waiting →
        wakeup ((m.k.procList p).pid.setWidth 8) m.k = .ok () (m.k.setFlag true)) := by
  obtain ⟨m, hm, hP⟩ := RunsTo.of_exec (G := anyStep.on)
    (P := fun m => (m.k.procList 0).status = .waiting) [.load, .load, .schedule, .sys 11]
    (by decide +kernel) (by decide +kernel)
  exact ⟨m, hP, pids_identify hm⟩

end AdvancedOS
