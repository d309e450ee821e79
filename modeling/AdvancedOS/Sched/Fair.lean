import AdvancedOS.Machine.Reach

/-!
# Fairness of the scheduler

`proc_pick` goes on behind the process that is running. When it is called while no process is
running, it starts at slot 0 again.

* `decisions`: the calls of `proc_pick` in a history, latest first;
* `Rotates`: a decision made behind the process picked before, as far as its result shows;
* `picked_within_round`: **in a row of `MAX_PROCESS` such decisions every process that stays ready
  is picked**;
* `passed_over`: decisions of the other kind pass over a ready process for ever.
-/

namespace AdvancedOS

open Cyclic

/-- The table that `proc_pick` finds, and what it returns. -/
abbrev Decision := (Slot → Status) × Option Slot

/-- The calls of `proc_pick`, latest first. -/
def decisions : List Event → List Decision
  | [] => []
  | .picked t r :: tr => (t, r) :: decisions tr
  | _ :: tr => decisions tr

/-- Only the process picked by `d'` can be running when the next decision `d` is made. -/
def Follows (d d' : Decision) : Prop := ∀ i, d.1 i = .running → d'.2 = some i

/-- The decision `d` after `d'` is made while a process is running, or it makes no difference that
the search starts at slot 0: the ready processes lie on one side of the process picked by `d'`. -/
def Rotates (d d' : Decision) : Prop :=
  (∃ i, d.1 i = .running) ∨ ∀ c, d'.2 = some c →
    ¬ ((∃ a, d.1 a = .ready ∧ a ≤ c) ∧ ∃ b, d.1 b = .ready ∧ c < b)

instance : DecidableRel Rotates := fun _ _ => inferInstanceAs (Decidable (_ ∨ _))

/-- **A decision that rotates comes closer to every ready process that it does not pick.** -/
theorem Rotates.hops_lt {d d' : Decision} {p c i : Slot} (hr : Rotates d d') (hf : Follows d d')
    (hd : d.2 = pick d.1) (hp : d.1 p = .ready) (hc : d'.2 = some c) (hi : d.2 = some i)
    (hip : i ≠ p) : hops (1 + i) p < hops (1 + c) p := by
  refine Cyclic.hops_lt c ?_ hip
  have hpick : pick d.1 = some i := hd.symm.trans hi
  unfold pick at hpick
  split at hpick
  · rename_i c' hc'
    -- the running process is the one that was picked before
    have := hf c' (runningSlot_eq_some hc')
    rw [hc] at this
    obtain rfl := Option.some.inj this
    rcases Option.or_eq_some_iff.mp hpick with h | ⟨hn, -⟩
    · exact cyclicFind_first (slot_succ_le c) h hp
    · exact absurd hp ((readyFrom_eq_none (slot_succ_le c)).mp hn p)
  · rename_i hn
    rcases hr with ⟨j, hj⟩ | hr
    · exact absurd hj (runningSlot_eq_none.mp hn j)
    · exact cyclicFind_zero c hpick (hr c hc) hp

/-! ## The decisions of a run -/

/-- Each decision is what `proc_pick` returns and follows the one before; a running process is the
one picked last. -/
structure Sched.Decided (s : Sched) : Prop where
  eq_pick : ∀ d ∈ decisions s.trace, d.2 = pick d.1
  chain : (decisions s.trace).IsChain Follows
  running : ∀ i, s.status i = .running → ∃ d ∈ (decisions s.trace).head?, d.2 = some i

section

variable {s s' : Sched} {p i : Slot} {t : Slot → Status} {st : Status}

theorem running_of_update (hst : st ≠ .running) (h : Function.update t p st i = .running) :
    t i = .running := by
  by_cases hi : i = p
  · subst hi
    simp [hst] at h
  · simpa [hi] using h

theorem Sched.Decided.frame (h : s.Decided) (hd : decisions s'.trace = decisions s.trace)
    (hr : ∀ i, s'.status i = .running → s.status i = .running) : s'.Decided where
  eq_pick := by rw [hd]; exact h.eq_pick
  chain := by rw [hd]; exact h.chain
  running i hi := by rw [hd]; exact h.running i (hr i hi)

theorem Sched.Decided.decide (h : s.Decided) {r : Option Slot} (hr : r = pick s.status)
    (hd : decisions s'.trace = (s.status, r) :: decisions s.trace)
    (hs : ∀ i, s'.status i = .running → r = some i) : s'.Decided where
  eq_pick := by
    rw [hd]
    rintro d (_ | ⟨_, hd'⟩)
    · exact hr
    · exact h.eq_pick d hd'
  chain := by
    rw [hd]
    refine h.chain.cons fun d hd' i hi => ?_
    obtain ⟨d₀, hd₀, hi⟩ := h.running i hi
    rw [Option.mem_unique hd' hd₀]
    exact hi
  running i hi := by
    rw [hd]
    exact ⟨_, rfl, hs i hi⟩

theorem Seeks.decided {m : Mode} {y : View} (h : Seeks s m y) (hs : s.Decided) : y.s.Decided := by
  cases h with
  | nobody hn =>
    exact hs.decide hn.symm rfl fun i hi => absurd hi (pick_eq_none.mp hn i).2
  | user hq | lost hq =>
    exact hs.decide hq.symm rfl fun i hi => by rw [promote_eq_running.mp hi]

theorem Serves.decided {c : Call} {y : View} (h : Serves p s c y) (hs : s.Decided) :
    y.s.Decided := by
  have hset : ∀ {st}, st ≠ .running → (s.setStatus p st).Decided :=
    fun hst => hs.frame rfl fun i => running_of_update hst
  have hended : (s.ended p).Decided := hs.frame rfl fun i => running_of_update (by decide)
  have hwoke : ∀ {s : Sched} {q}, s.Decided → (s.woke q).Decided :=
    fun hs => hs.frame rfl fun i => running_of_update (by decide)
  cases h with
  | spawned => exact hs.frame rfl fun i => running_of_update (by decide)
  | ends => exact hended
  | leaves => exact hs.frame rfl fun i => running_of_update (by decide)
  | waits _ hy => exact hy.decided (hset (by decide))
  | endsWaking _ _ _ hy => exact hy.decided (hwoke hended)
  | blocked _ hy => exact hy.decided (hs.frame rfl fun i => running_of_update (by decide))
  | wakes _ _ _ hy => exact hy.decided (hwoke (hs.frame rfl fun i hi => hi))
  | _ => exact hs.frame rfl fun i hi => hi

end

theorem Moves.decided {x y : View} {c : Option Call} (h : Moves x c y) (hx : x.s.Decided) :
    y.s.Decided := by
  cases h with
  | served _ _ hy => exact hy.decided (hx.frame rfl fun i hi => hi)
  | sought _ hy => exact hy.decided hx
  | created => exact hx.frame rfl fun i => running_of_update (by decide)
  | finished | idle | failed => exact hx.frame rfl fun i hi => hi

theorem Reachable.decided {G : Guard} {m : Machine} (h : Reachable G m) : m.k.sched.Decided := by
  refine h.view (I := fun x => x.s.Decided) ⟨by simp [decisions, Sched.start], ?_, ?_⟩ ?_
  · exact List.isChain_nil
  · intro i hi
    cases hi
  · exact fun x c y _ hx _ hy => hy.decided hx

/-- **In a row of `MAX_PROCESS` decisions that rotate every process that stays ready is picked.** -/
theorem picked_within_round {m : Machine} (h : Reachable anyStep m) (p : Slot)
    {later window earlier : List Decision}
    (hd : decisions m.k.trace = later ++ window ++ earlier) (hw : window.length = MAX_PROCESS)
    (hp : ∀ d ∈ window, d.1 p = .ready) (hr : window.IsChain Rotates) :
    ∃ d ∈ window, d.2 = some p := by
  by_contra hn
  have hD := h.decided
  have hwin : window <:+: decisions m.k.trace := ⟨later, earlier, hd.symm⟩
  have hsub : ∀ d ∈ window, d.2 = pick d.1 := fun d hd' =>
    hD.eq_pick d (hwin.subset hd')
  -- the process that a decision of the window picks
  have hsome : ∀ d ∈ window, ∃ i, d.2 = some i ∧ i ≠ p := by
    intro d hd'
    obtain ⟨i, hi⟩ := Option.ne_none_iff_exists'.mp (pick_ne_none (hp d hd'))
    have hi' : d.2 = some i := (hsub d hd').trans hi
    exact ⟨i, hi', fun e => hn ⟨d, hd', e ▸ hi'⟩⟩
  have hchain : (window.map fun d => d.2.getD p).IsChain
      fun a b : Slot => hops (1 + a) p < hops (1 + b) p := by
    rw [List.isChain_map]
    have hf := hD.chain.infix hwin
    rw [List.isChain_iff_getElem] at hf hr ⊢
    intro n hn
    obtain ⟨i, hi, hip⟩ := hsome _ (List.getElem_mem (by omega : n < window.length))
    obtain ⟨c, hc, -⟩ := hsome _ (List.getElem_mem hn)
    simp only [hi, hc, Option.getD_some]
    have hmem := List.getElem_mem (by omega : n < window.length)
    exact (hr n hn).hops_lt (hf n hn) (hsub _ hmem) (hp _ hmem) hc hi hip
  have hlen := length_lt_of_isChain (j := p) hchain ?_
  · rw [List.length_map, hw] at hlen
    exact lt_irrefl _ hlen
  · intro a ha
    obtain ⟨d, hd', rfl⟩ := List.mem_map.mp ha
    obtain ⟨i, hi, hip⟩ := hsome d hd'
    simpa [hi] using hip

/-- Twenty programs share the processor; the last one is picked in the twentieth decision. -/
theorem picked_within_round_last : ∃ m : Machine, (decisions m.k.trace).length = MAX_PROCESS ∧
    ∃ d ∈ decisions m.k.trace, d.2 = some 19 := by
  obtain ⟨m, hm, hlen, hp, hr⟩ := RunsTo.of_exec (G := anyStep.on)
    (P := fun m => (decisions m.k.trace).length = MAX_PROCESS ∧
      (∀ d ∈ decisions m.k.trace, d.1 19 = .ready) ∧ (decisions m.k.trace).IsChain Rotates)
    (List.replicate 20 .load ++ [.schedule] ++ List.replicate 38 .tick)
    (by decide +kernel) (by decide +kernel)
  exact ⟨m, hlen, @picked_within_round m hm 19 [] _ [] (by simp) hlen hp hr⟩

/-- A process forks eleven children and waits for them one after the other; a child exits as soon as
it runs. The eleventh child is ready throughout and is never picked. -/
theorem passed_over : ∃ m : Machine, Reachable anyStep m ∧ ∃ window earlier : List Decision,
    decisions m.k.trace = window ++ earlier ∧ window.length = MAX_PROCESS ∧
    (∀ d ∈ window, d.1 11 = .ready) ∧ ∀ d ∈ window, d.2 ≠ some 11 := by
  obtain ⟨m, hm, hP⟩ := RunsTo.of_exec (G := anyStep.on)
    (P := fun m => ((decisions m.k.trace).take MAX_PROCESS).length = MAX_PROCESS ∧
      (∀ d ∈ (decisions m.k.trace).take MAX_PROCESS, d.1 11 = .ready) ∧
      ∀ d ∈ (decisions m.k.trace).take MAX_PROCESS, d.2 ≠ some 11)
    ([.load, .schedule] ++ List.replicate 11 (.sys 10) ++
      (List.replicate 10 [.sys 11, .sys 12]).flatten)
    (by decide +kernel) (by decide +kernel)
  exact ⟨m, hm, _, _, (List.take_append_drop MAX_PROCESS _).symm, hP⟩

end AdvancedOS
