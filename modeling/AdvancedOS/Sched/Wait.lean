import AdvancedOS.Sched.History
import Mathlib.Data.Finset.Card

/-!
# Waiting for children

`do_wait` makes its caller wait and `do_exit` wakes a parent that waits. Nothing else is remembered:
a child that exits before its parent calls `do_wait` is never waited for.

* `completedWaits p`, `Sched.childExits p`: the `do_wait` calls that `p` has gone on from, and the
  children of `p` that have exited;
* `Sched.credit p`: the waits of `p` that a child has answered;
* `childStillRuns`: `do_wait` is called only while every child that has exited was waited for, and
  some other process can run;
* `wait_exit`: **then every wait is answered by a child of its own, and nobody waits although a
  child has exited**;
* `lost_wakeup`: a child exits first, and its parent waits for ever.
-/

namespace AdvancedOS

open Function (update)

variable {s s' : Sched} {c c' : Option Slot} {p q i : Slot} {m : Mode} {y : View}

/-- The `do_wait` calls that `p` has gone on from. -/
def completedWaits (p : Slot) : List Event → ℕ := returned fun q c => q = p ∧ c = .wait

/-- The children of `p` that have exited. -/
def Sched.childExits (p : Slot) (s : Sched) : Finset Slot :=
  Finset.univ.filter fun q => s.parent q = some p ∧ .terminated q ∈ s.trace

/-- The waits of `p` that were answered: those it has gone on from and the one that it has been
woken from. -/
def Sched.credit (p : Slot) (s : Sched) : ℕ :=
  completedWaits p s.trace +
    if pending s.trace p = some .wait ∧ s.status p ≠ .waiting then 1 else 0

@[simp] theorem mem_childExits :
    q ∈ s.childExits p ↔ s.parent q = some p ∧ .terminated q ∈ s.trace := by
  simp [Sched.childExits]

theorem credit_congr (hr : completedWaits p s'.trace = completedWaits p s.trace)
    (hp : pending s'.trace p = pending s.trace p)
    (hw : s'.status p = .waiting ↔ s.status p = .waiting) : s'.credit p = s.credit p := by
  simp only [Sched.credit, hr, hp, ne_eq, hw]

theorem credit_call {d : Call} (hp : pending s.trace q = none) (hd : d ≠ .wait) :
    (s.emit (.call q d)).credit p = s.credit p := by
  have hr : completedWaits p (.call q d :: s.trace) = completedWaits p s.trace := rfl
  by_cases hpq : p = q
  · subst hpq
    simp [Sched.credit, hr, hp, hd]
  · exact credit_congr hr (by simp [hpq]) Iff.rfl

theorem credit_goesOn (hq : s.status q ≠ .waiting) :
    (s.emit (.goesOn q)).credit p = s.credit p := by
  by_cases hpq : p = q
  · subst hpq
    have hany : ((pending s.trace p).any fun c => decide (p = p ∧ c = .wait)) =
        decide (pending s.trace p = some .wait) := by
      cases pending s.trace p <;> simp
    rw [Sched.credit, Sched.credit, if_neg (by simp), Nat.add_zero, completedWaits,
      Sched.emit_trace, returned, hany]
    congr 1
    by_cases hw : pending s.trace p = some .wait <;> simp [hw, hq]
  · have hr : completedWaits p (.goesOn q :: s.trace) = completedWaits p s.trace := by
      have hany : ((pending s.trace q).any fun c => decide (q = p ∧ c = .wait)) = false := by
        cases pending s.trace q <;> simp [Ne.symm hpq]
      simp only [completedWaits, returned, hany]
      rfl
    exact credit_congr hr (by simp [hpq]) Iff.rfl

/-! ## The invariant -/

/-- At most as many waits are answered as children have exited. Who waits has no exited child left;
who has an exited child that still runs has one left. The process `c` runs whatever its status. -/
structure Sched.Credits (c : Option Slot) (s : Sched) : Prop where
  allocated : ∀ q, .terminated q ∈ s.trace → s.status q ≠ .new
  waiting : ∀ p, s.status p = .waiting → pending s.trace p = some .wait
  le : ∀ p, s.credit p ≤ (s.childExits p).card
  asleep : ∀ p, s.status p = .waiting → (s.childExits p).card ≤ s.credit p
  live : ∀ p q, s.parent q = some p → .terminated q ∈ s.trace →
    (c = some q ∨ s.status q ≠ .terminated) → s.credit p < (s.childExits p).card

namespace Sched.Credits

theorem frame (hs : s.Credits c) (hpar : s'.parent = s.parent)
    (ht : ∀ q, .terminated q ∈ s'.trace ↔ .terminated q ∈ s.trace)
    (hcr : ∀ p, s'.credit p = s.credit p)
    (hnew : ∀ q, s.status q ≠ .new → s'.status q ≠ .new)
    (hw : ∀ p, s'.status p = .waiting →
      s.status p = .waiting ∧ pending s'.trace p = pending s.trace p)
    (hlive : ∀ q, (c' = some q ∨ s'.status q ≠ .terminated) →
      (c = some q ∨ s.status q ≠ .terminated)) : s'.Credits c' := by
  have hex : ∀ p, s'.childExits p = s.childExits p := by
    intro p
    ext q
    simp [hpar, ht]
  refine ⟨fun q hq => hnew q (hs.allocated q ((ht q).mp hq)), fun p hp => ?_, fun p => ?_,
    fun p hp => ?_, fun p q hq htq hl => ?_⟩
  · rw [(hw p hp).2]
    exact hs.waiting p (hw p hp).1
  · rw [hcr, hex]
    exact hs.le p
  · rw [hcr, hex]
    exact hs.asleep p (hw p hp).1
  · rw [hcr, hex]
    exact hs.live p q (hpar ▸ hq) ((ht q).mp htq) (hlive q hl)

theorem silent (hs : s.Credits c) {e : Event} (he : e.Silent) (hne : ∀ q, e ≠ .terminated q) :
    (s.emit e).Credits c := by
  have hp : ∀ p, pending (s.emit e).trace p = pending s.trace p := fun p => by
    rw [Sched.emit_trace, pending_silent he]
  refine hs.frame rfl ?_ (fun p => credit_congr (returned_silent _ he) (hp p) Iff.rfl)
    (fun _ h => h) (fun p h => ⟨h, hp p⟩) fun _ h => h
  intro q
  rw [Sched.emit_trace, List.mem_cons]
  exact or_iff_right (hne q).symm

theorem call (hs : s.Credits c) {d : Call} (hp : pending s.trace p = none)
    (hw : s.status p ≠ .waiting) (hd : d ≠ .wait) : (s.emit (.call p d)).Credits c := by
  refine hs.frame rfl (by simp) (fun _ => credit_call hp hd) (fun _ h => h) ?_ fun _ h => h
  intro q hq
  have hqp : q ≠ p := by
    rintro rfl
    exact hw hq
  exact ⟨hq, by simp [hqp]⟩

theorem goesOn (hs : s.Credits c) (hw : s.status p ≠ .waiting) :
    (s.emit (.goesOn p)).Credits c := by
  refine hs.frame rfl (by simp) (fun _ => credit_goesOn hw) (fun _ h => h) ?_ fun _ h => h
  intro q hq
  have hqp : q ≠ p := by
    rintro rfl
    exact hw hq
  exact ⟨hq, by simp [hqp]⟩

theorem switchTo (hs : s.Credits c) (hq : pick s.status = some q) :
    (s.switchTo q).Credits (some q) := by
  have hst : ∀ i st, st ≠ .ready → st ≠ .running →
      ((s.switchTo q).status i = st ↔ s.status i = st) := fun i st h h' => promote_pick hq h h'
  have hw : ∀ i, (s.switchTo q).status i = .waiting ↔ s.status i = .waiting :=
    fun i => hst i _ (by decide) (by decide)
  have ht : ∀ i, (s.switchTo q).status i = .terminated ↔ s.status i = .terminated :=
    fun i => hst i _ (by decide) (by decide)
  have hn : ∀ i, (s.switchTo q).status i = .new ↔ s.status i = .new :=
    fun i => hst i _ (by decide) (by decide)
  refine hs.frame rfl (by simp) (fun p => credit_congr rfl rfl (hw p))
    (fun i hi h => hi ((hn i).mp h)) (fun p hp => ⟨(hw p).mp hp, rfl⟩) ?_
  rintro i (⟨⟨⟩⟩ | hi)
  · exact .inr (pick_ne hq (by decide) (by decide))
  · exact .inr fun h => hi ((ht i).mpr h)

theorem spawn (hs : s.Credits c) (hi : s.status i = .new) (parent : Option Slot) :
    (s.spawn i parent).Credits c := by
  have hne : ∀ q, .terminated q ∈ s.trace → q ≠ i := by
    rintro q hq rfl
    exact hs.allocated q hq hi
  have hex : ∀ p, (s.spawn i parent).childExits p = s.childExits p := by
    intro p
    ext q
    rw [mem_childExits, mem_childExits]
    refine and_congr_left fun hq => ?_
    rw [Sched.spawn_parent, Function.update_of_ne (hne q hq)]
  have hw : ∀ p, (s.spawn i parent).status p = .waiting ↔ s.status p = .waiting := by
    intro p
    by_cases hpi : p = i
    · simp [hpi, hi]
    · simp [hpi]
  have hcr : ∀ p, (s.spawn i parent).credit p = s.credit p := fun p =>
    credit_congr rfl rfl (hw p)
  refine ⟨fun q hq => ?_, fun p hp => hs.waiting p ((hw p).mp hp), fun p => ?_, fun p hp => ?_,
    fun p q hq htq hl => ?_⟩
  · have := hs.allocated q hq
    simpa [hne q hq] using this
  · rw [hex, hcr]
    exact hs.le p
  · rw [hex, hcr]
    exact hs.asleep p ((hw p).mp hp)
  · rw [hex, hcr]
    have hqi := hne q htq
    refine hs.live p q (by simpa [hqi] using hq) htq ?_
    simpa [hqi] using hl

theorem wait (hs : s.Credits (some p)) (hp : pending s.trace p = none)
    (hall : (s.childExits p).card ≤ completedWaits p s.trace) :
    ((s.emit (.call p .wait)).setStatus p .waiting).Credits none := by
  have hex : ∀ r,
      ((s.emit (.call p .wait)).setStatus p .waiting).childExits r = s.childExits r := by
    intro r
    ext q
    simp
  have hpc : s.credit p = completedWaits p s.trace := by
    simp [Sched.credit, hp]
  have hcr : ∀ r, ((s.emit (.call p .wait)).setStatus p .waiting).credit r = s.credit r := by
    intro r
    by_cases hrp : r = p
    · subst hrp
      rw [hpc]
      simp [Sched.credit, completedWaits, returned]
    · exact credit_congr rfl (by simp [hrp]) (by simp [hrp])
  refine ⟨fun q hq => ?_, fun q hq => ?_, fun r => ?_, fun r hr => ?_, fun r q hq htq hl => ?_⟩
  · have := hs.allocated q (by simpa using hq)
    rw [ne_eq, Sched.setStatus_status]
    by_cases hqp : q = p
    · simp [hqp]
    · simpa [hqp] using this
  · by_cases hqp : q = p
    · simp [hqp]
    · simpa [hqp] using hs.waiting q (by simpa [hqp] using hq)
  · rw [hex, hcr]
    exact hs.le r
  · rw [hex, hcr]
    by_cases hrp : r = p
    · rw [hrp, hpc]
      exact hall
    · exact hs.asleep r (by simpa [hrp] using hr)
  · rw [hex, hcr]
    refine hs.live r q hq (by simpa using htq) ?_
    by_cases hqp : q = p
    · exact .inl (congrArg some hqp.symm)
    · exact .inr (by simpa [hqp] using hl)

theorem childExits_ended (r : Slot) :
    (s.ended p).childExits r =
      if s.parent p = some r then insert p (s.childExits r) else s.childExits r := by
  ext q
  by_cases hqp : q = p
  · subst hqp
    split_ifs with h <;> simp [h]
  · split_ifs with h <;> simp [hqp]

theorem childExits_subset_ended (r : Slot) : s.childExits r ⊆ (s.ended p).childExits r := by
  intro q hq
  rw [mem_childExits] at hq ⊢
  exact ⟨hq.1, List.mem_cons_of_mem _ hq.2⟩

/-- The credit does not depend on the status of a process that is in no `do_wait`. -/
theorem credit_ended (hp : pending s.trace p ≠ some .wait) (r : Slot) :
    (s.ended p).credit r = s.credit r := by
  by_cases hrp : r = p
  · subst hrp
    have ht : pending (.terminated r :: s.trace) r = pending s.trace r := rfl
    have hr : completedWaits r (.terminated r :: s.trace) = completedWaits r s.trace := rfl
    simp [Sched.credit, ht, hr, hp]
  · exact credit_congr rfl rfl (by simp [hrp])

/-- An exit while the parent does not wait: one more child has exited than was waited for. -/
theorem ended (hs : s.Credits (some p)) (hnew : s.status p ≠ .new)
    (hp : pending s.trace p ≠ some .wait)
    (hq : ∀ q, s.parent p = some q → (s.ended p).status q ≠ .waiting) :
    (s.ended p).Credits (some p) := by
  have hwait : ∀ r, (s.ended p).status r = .waiting → r ≠ p ∧ s.status r = .waiting := by
    intro r hr
    have hrp : r ≠ p := by
      rintro rfl
      simp at hr
    exact ⟨hrp, by simpa [hrp] using hr⟩
  refine ⟨fun q hq => ?_, fun r hr => hs.waiting r (hwait r hr).2, fun r => ?_, fun r hr => ?_,
    fun r q hqr htq hl => ?_⟩
  · by_cases hqp : q = p
    · simp [hqp]
    · simpa [hqp] using hs.allocated q (by simpa [hqp] using hq)
  · rw [credit_ended hp]
    exact (hs.le r).trans (Finset.card_le_card (childExits_subset_ended r))
  · rw [credit_ended hp, childExits_ended, if_neg fun h => hq r h hr]
    exact hs.asleep r (hwait r hr).2
  · rw [credit_ended hp]
    by_cases hold : .terminated q ∈ s.trace
    · refine (hs.live r q hqr hold ?_).trans_le (Finset.card_le_card (childExits_subset_ended r))
      by_cases hqp : q = p
      · exact .inl (congrArg some hqp.symm)
      · exact hl.imp_right fun h => by simpa [hqp] using h
    · have hqp : q = p := by simpa [hold] using htq
      subst hqp
      have hqr' : s.parent q = some r := hqr
      have hnot : q ∉ s.childExits r := fun h => hold (mem_childExits.mp h).2
      rw [childExits_ended, if_pos hqr', Finset.card_insert_of_notMem hnot]
      exact Nat.lt_succ_of_le (hs.le r)

/-- An exit while the parent waits: the parent has one more wait answered. -/
theorem endedWoke {r : Slot} (hs : s.Credits (some p)) (hp : pending s.trace p ≠ some .wait)
    (hpr : s.parent p = some r) (hw : (s.ended p).status r = .waiting) :
    ((s.ended p).woke r).Credits none := by
  have hrp : r ≠ p := by
    rintro rfl
    simp at hw
  have hr : s.status r = .waiting := by simpa [hrp] using hw
  -- otherwise the parent would have an exited child left, and not wait
  have hnot : p ∉ s.childExits r := by
    intro h
    have h1 := hs.asleep r hr
    have h2 := hs.live r p hpr (mem_childExits.mp h).2 (.inl rfl)
    omega
  have hex : ∀ r', ((s.ended p).woke r).childExits r' = (s.ended p).childExits r' := by
    intro r'
    ext q
    simp
  have hexr : (((s.ended p).woke r).childExits r).card = (s.childExits r).card + 1 := by
    rw [hex, childExits_ended, if_pos hpr, Finset.card_insert_of_notMem hnot]
  have hexo : ∀ r', r' ≠ r → ((s.ended p).woke r).childExits r' = s.childExits r' := by
    intro r' hr'
    rw [hex, childExits_ended, if_neg]
    rw [hpr]
    exact fun h => hr' (Option.some.inj h).symm
  have hcrr : ((s.ended p).woke r).credit r = s.credit r + 1 := by
    have hpend : pending (.woken r :: .terminated p :: s.trace) r = some .wait := hs.waiting r hr
    have hpend' := hs.waiting r hr
    have hcw : completedWaits r (.woken r :: .terminated p :: s.trace) =
        completedWaits r s.trace := rfl
    simp [Sched.credit, hpend, hpend', hcw, hr]
  have hcro : ∀ r', r' ≠ r → ((s.ended p).woke r).credit r' = s.credit r' := by
    intro r' hr'
    rw [← credit_ended hp r']
    exact credit_congr rfl rfl (by simp [hr'])
  have hwait : ∀ q, ((s.ended p).woke r).status q = .waiting → q ≠ r ∧ s.status q = .waiting := by
    intro q hq
    have hqr : q ≠ r := by
      rintro rfl
      simp at hq
    have hqp : q ≠ p := by
      rintro rfl
      simp [hqr] at hq
    exact ⟨hqr, by simpa [hqr, hqp] using hq⟩
  refine ⟨fun q hq => ?_, fun q hq => hs.waiting q (hwait q hq).2, fun r' => ?_, fun r' hr' => ?_,
    fun r' q hqr' htq hl => ?_⟩
  · by_cases hqr : q = r
    · simp [hqr]
    · by_cases hqp : q = p
      · simp [hqp, hrp.symm]
      · simpa [hqr, hqp] using hs.allocated q (by simpa [hqp] using hq)
  · by_cases hrr : r' = r
    · rw [hrr, hexr, hcrr]
      exact Nat.succ_le_succ (hs.le r)
    · rw [hexo r' hrr, hcro r' hrr]
      exact hs.le r'
  · obtain ⟨hrr, hw'⟩ := hwait r' hr'
    rw [hexo r' hrr, hcro r' hrr]
    exact hs.asleep r' hw'
  · have hqp : q ≠ p := by
      rintro rfl
      simp [hrp.symm] at hl
    have hlive : s.status q ≠ .terminated := by
      by_cases hqr : q = r
      · simp [hqr, hr]
      · simpa [hqr, hqp] using hl
    have := hs.live r' q hqr' (by simpa [hqp] using htq) (.inr hlive)
    by_cases hrr : r' = r
    · rw [hrr, hexr, hcrr]
      rw [hrr] at this
      omega
    · rwa [hexo r' hrr, hcro r' hrr]

end Sched.Credits

/-! ## Steps -/

/-- `do_wait` is called only while every child that has exited was waited for and some other process
is ready. Processes fork, wait and exit. -/
def childStillRuns : Guard
  | x, some .wait => (∃ q, x.s.curr ≠ some q ∧ x.s.status q = .ready) ∧
    ∀ p, x.s.curr = some p → (x.s.childExits p).card ≤ completedWaits p x.s.trace
  | _, some c => c = .fork ∨ c = .exit ∨ c.Quiet
  | _, none => True

instance (x : View) : (c : Option Call) → Decidable (childStillRuns x c)
  | none => isTrue trivial
  | some .wait => inferInstanceAs (Decidable (_ ∧ _))
  | some .logo | some .busy | some .fork | some .exit | some .getPid | some (.getSem _)
  | some (.semP _) | some (.semV _) | some (.freeSem _) | some .processReturn
  | some (.threadCreate ..) | some (.threadJoin _) | some .threadSelf | some .threadExit
  | some (.file _) | some .unknown => inferInstanceAs (Decidable (_ ∨ _ ∨ _))

/-- The waits are answered as they should, and the process that runs does not wait. -/
structure Sched.Answered (s : Sched) : Prop where
  credits : s.Credits s.curr
  awake : ∀ p, s.curr = some p → s.status p ≠ .waiting

theorem Sched.Answered.goesOn (hs : s.Answered) (hp : s.curr = some p) :
    (s.emit (.goesOn p)).Answered :=
  ⟨hs.credits.goesOn (hs.awake p hp), hs.awake⟩

theorem Seeks.answered (h : Seeks s m y) (hs : s.Credits c)
    (hn : pick s.status = none → s.Answered) : y.s.Answered := by
  have hswitch : ∀ {q}, pick s.status = some q → (s.switchTo q).Answered := by
    intro q hq
    refine ⟨hs.switchTo hq, ?_⟩
    rintro p ⟨⟩
    simp [promote_self]
  cases h with
  | nobody h =>
    obtain ⟨h1, h2⟩ := hn h
    exact ⟨h1.silent (e := .picked s.status none) trivial (by simp), h2⟩
  | user hq => exact (hswitch hq).goesOn rfl
  | lost hq => exact hswitch hq

theorem childStillRuns.not_sem {x : View} {d : Call} (h : childStillRuns x (some d)) :
    d = .wait ∨ d = .fork ∨ d = .exit ∨ d.Quiet := by
  cases d with
  | wait => exact .inl rfl
  | _ => exact .inr h

theorem Serves.answered {d : Call} (h : Serves p (s.emit (.call p d)) d y) (hw : s.Wf)
    (hs : s.Answered) (hp : s.curr = some p) (hpend : pending s.trace p = none)
    (hg : childStillRuns ⟨m, s⟩ (some d)) : y.s.Answered := by
  have hc := hs.credits
  rw [hp] at hc
  have hawake := hs.awake p hp
  -- a call other than `do_wait`
  have hcall : d ≠ .wait → (s.emit (.call p d)).Answered := by
    intro hd
    refine ⟨?_, hs.awake⟩
    rw [Sched.emit_curr, hp]
    exact hc.call hpend hawake hd
  have hexit : d.Exits → pending (s.emit (.call p d)).trace p ≠ some .wait := by
    rintro hd h
    obtain rfl : d = .wait := by simpa using h
    exact hd
  have hkinds := hg.not_sem
  cases h with
  | quiet hd => exact (hcall (by rintro rfl; exact hd)).goesOn hp
  | file => exact hcall (by simp)
  | full hd => exact hcall (by rintro rfl; exact hd)
  | @spawned _ i hd hi =>
    obtain ⟨h1, h2⟩ := hcall (by rintro rfl; exact hd)
    refine Sched.Answered.goesOn (s := (s.emit (.call p d)).spawn i (some p))
      ⟨h1.spawn hi (some p), fun q hq => ?_⟩ hp
    have hqi : q ≠ i := by
      rintro rfl
      exact hw.curr q hq hi
    simpa [hqi] using h2 q hq
  | waits hd hy =>
    obtain rfl : d = .wait := by
      rcases hkinds with rfl | rfl | rfl | h
      · rfl
      · exact hd.elim
      · exact hd.elim
      · cases d <;> first | rfl | exact hd.elim | exact h.elim
    obtain ⟨⟨q, hq, hready⟩, hall⟩ := hg
    have hqp : q ≠ p := fun e => hq (e ▸ hp)
    have hready' : s.status q = .ready := hready
    refine hy.answered (hc.wait hpend (hall p hp)) fun hn => absurd hn (pick_ne_none (i := q) ?_)
    simp [hqp, hready']
  | ends hd hq =>
    obtain ⟨h1, h2⟩ := hcall (by rintro rfl; exact hd)
    rw [Sched.emit_curr, hp] at h1
    refine ⟨?_, fun q hq => ?_⟩
    · rw [Sched.ended_curr, Sched.emit_curr, hp]
      exact h1.ended (hw.curr p hp) (hexit hd) hq
    · rw [Sched.ended_curr, Sched.emit_curr, hp] at hq
      cases hq
      simp
  | @endsWaking _ q _ hd hq hwt hy =>
    obtain ⟨h1, h2⟩ := hcall (by rintro rfl; exact hd)
    rw [Sched.emit_curr, hp] at h1
    exact hy.answered (h1.endedWoke (hexit hd) hq hwt) fun hn =>
      absurd hn (pick_ne_none (i := q) (by simp))
  | leaves | noSem | gotSem | freed | badFreeSem | badSemP | badSemV | taken | blocked | released
  | headless | missed | wakes => simp [Call.Quiet] at hkinds

theorem Moves.answered {x : View} {d : Option Call} (h : Moves x d y) (hw : x.Wf)
    (hd : x.Disciplined) (hx : x.s.Answered) (hg : childStillRuns x d) : y.s.Answered := by
  cases h with
  | @served m s p d y hm hp hy =>
    have hm' : m = .user := by
      rcases hm with rfl | ⟨rfl, rfl⟩
      · rfl
      · simp [childStillRuns, Call.Quiet] at hg
    exact hy.answered hw.s hx hp (hd.user hm' p hp) hg
  | finished hp => exact hx.goesOn hp
  | idle => exact hx
  | sought _ hy => exact hy.answered hx.credits fun _ => hx
  | @created s i hi =>
    refine ⟨hx.credits.spawn hi _, fun q hq => ?_⟩
    have hqi : q ≠ i := by
      rintro rfl
      exact hw.s.curr q hq hi
    simpa [hqi] using hx.awake q hq
  | failed => exact hx

/-! ## The result -/

/-- **If processes wait for children that still run while another process is ready, no wait is
completed without a child of its own that has exited, and nobody waits although a child has exited
that was not waited for.** -/
theorem wait_exit {m : Machine} (h : Reachable childStillRuns m) (p : Slot) :
    completedWaits p m.k.trace ≤ (m.k.sched.childExits p).card ∧
      (pending m.k.trace p = some .wait → (m.k.procList p).status = .waiting →
        (m.k.sched.childExits p).card ≤ completedWaits p m.k.trace) := by
  have hA : m.view.s.Answered := by
    refine h.view₂ (J := View.Disciplined) (I := fun x => x.s.Answered)
      (fun _ => Reachable.disciplined) ⟨⟨?_, ?_, ?_, ?_, ?_⟩, ?_⟩ ?_
    · simp [Sched.start]
    · simp [Sched.start]
    · simp [Sched.start, Sched.credit, completedWaits, returned, pending]
    · simp [Sched.start]
    · simp [Sched.start]
    · simp [Sched.start]
    · exact fun x c y hw hd hx hg hy => hy.answered hw hd hx hg
  refine ⟨(Nat.le_add_right _ _).trans (hA.credits.le p), fun hp hst => ?_⟩
  refine (hA.credits.asleep p hst).trans_eq ?_
  rw [Sched.credit, if_neg fun h => h.2 hst]
  rfl

/-- A parent waits for the child that it has forked, and goes on when the child exits. -/
theorem wait_exit_fork : ∃ m : Machine, completedWaits 0 m.k.trace = 1 ∧
    completedWaits 0 m.k.trace ≤ (m.k.sched.childExits 0).card ∧
      (pending m.k.trace 0 = some .wait → (m.k.procList 0).status = .waiting →
        (m.k.sched.childExits 0).card ≤ completedWaits 0 m.k.trace) := by
  obtain ⟨m, hm, hP⟩ := RunsTo.of_exec (G := Guard.on childStillRuns)
    (P := fun m => completedWaits 0 m.k.trace = 1)
    [.load, .load, .schedule, .sys 10, .sys 11, .tick, .tick, .tick, .sys 12]
    (by decide +kernel) (by decide +kernel)
  exact ⟨m, hP, wait_exit hm 0⟩

/-- The child exits before the parent calls `do_wait`: the parent waits although its only child has
exited. -/
theorem lost_wakeup : ∃ m : Machine, Reachable anyStep m ∧ pending m.k.trace 0 = some .wait ∧
    (m.k.procList 0).status = .waiting ∧ m.k.currProc = some 1 ∧
    ¬ (m.k.sched.childExits 0).card ≤ completedWaits 0 m.k.trace := by
  obtain ⟨m, hm, hP⟩ := RunsTo.of_exec (G := anyStep.on)
    (P := fun m => pending m.k.trace 0 = some .wait ∧ (m.k.procList 0).status = .waiting ∧
      m.k.currProc = some 1 ∧ ¬ (m.k.sched.childExits 0).card ≤ completedWaits 0 m.k.trace)
    [.load, .load, .schedule, .sys 10, .tick, .tick, .tick, .tick, .sys 12, .ret, .tick, .tick,
      .sys 11]
    (by decide +kernel) (by decide +kernel)
  exact ⟨m, hm, hP⟩

end AdvancedOS
