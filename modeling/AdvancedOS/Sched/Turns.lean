import AdvancedOS.Sched.Quantum

/-!
# The wait for the processor

As long as nobody blocks or ends, `proc_pick` is called while the current process is running, and
the search goes on behind it. Each switch then brings the turn closer to every process that is ready.

* `Call.Yields`: the system call blocks its caller or ends it;
* `Behind`: how many timer interrupts a process that is ready still waits at most;
* `behind_step`: one step;
* `waiting_bound`: **a process that is ready and `d` slots behind the running one runs after at most
  `d * (MAX_TICK + 1)` timer interrupts.**
-/

namespace AdvancedOS

open Cyclic

open Function (update update_self update_of_ne)

variable {s s' : Core} {p q c : Slot} {n : ℕ} {t : Slot → Status} {m x y : Machine}

/-! ## System calls -/

/-- The call blocks its caller or ends it. -/
def Call.Yields (s : Sched) (c : Call) : Prop :=
  c.Waits ∨ c.Exits ∨ c = .processReturn ∨ ∃ i : SemId, c = .semP i ∧ (s.sem i).val ≤ 0

/-- The step of `m` begins no call that yields. -/
def Stays (m : Machine) (l : Label) : Prop := ∀ c, m.call l = some c → ¬ c.Yields m.k.sched

instance (s : Sched) : DecidablePred (Call.Yields s) := fun _ =>
  inferInstanceAs (Decidable (_ ∨ _ ∨ _ ∨ _))

instance (m : Machine) (l : Label) : Decidable (Stays m l) :=
  decidable_of_iff (∀ c ∈ m.call l, ¬ c.Yields m.k.sched) Iff.rfl

/-- The processor has been given to the one that is chosen among these statuses. -/
def Chosen (t : Slot → Status) (s : Core) : Prop :=
  ∃ q, pick t = some q ∧ s.curr = some q ∧ s.status = promote q t

theorem Seeks.chosen {σ : Sched} {μ : Mode} (h : Seeks σ μ y.view) (hq : σ.status q = .ready) :
    Chosen σ.status y.k.core := by
  generalize hv : y.view = v at h
  cases h with
  | nobody hn => exact absurd hn (pick_ne_none hq)
  | @user r hr =>
    exact ⟨r, hr, congrArg (fun v : View => v.s.curr) hv, congrArg (fun v : View => v.s.status) hv⟩
  | @lost r hr =>
    exact ⟨r, hr, congrArg (fun v : View => v.s.curr) hv, congrArg (fun v : View => v.s.status) hv⟩

/-- **A call that does not yield leaves its caller the turn, or wakes another process and gives the
processor to the next one.** -/
theorem Serves.turn {σ : Sched} {a : Call} (h : Serves p σ a y.view) (ha : ¬ a.Yields σ) :
    (y.k.currProc = σ.curr ∧ ∀ i, σ.status i ≠ .new → y.k.statuses i = σ.status i) ∨
    ∃ i, σ.status i = .waiting ∧ Chosen (update σ.status i .ready) y.k.core := by
  have hsame : ∀ {v : View}, y.view = v → v.s.curr = σ.curr →
      (∀ i, σ.status i ≠ .new → v.s.status i = σ.status i) →
      y.k.currProc = σ.curr ∧ ∀ i, σ.status i ≠ .new → y.k.statuses i = σ.status i := by
    rintro v rfl hc hst
    exact ⟨hc, hst⟩
  generalize hv : y.view = v at h
  cases h with
  | waits hw => exact absurd (.inl hw) ha
  | ends he | endsWaking he => exact absurd (.inr (.inl he)) ha
  | leaves => exact absurd (.inr (.inr (.inl rfl))) ha
  | blocked hle => exact absurd (.inr (.inr (.inr ⟨_, rfl, hle⟩))) ha
  | wakes _ _ hst hy =>
    subst hv
    exact .inr ⟨_, hst, hy.chosen (update_self ..)⟩
  | spawned _ hn =>
    refine .inl (hsame hv rfl fun i hi => update_of_ne ?_ ..)
    rintro rfl
    exact hi hn
  | _ => exact .inl (hsame hv rfl fun _ _ => rfl)

/-- **No system call makes the time slice of its caller longer.** -/
theorem Acts.tick_eq {a : Call} (h : Acts p s a s') (hp : s.status p = .running)
    (hc : s'.curr = some p) : s'.tick p = s.tick p := by
  have hlooks : ∀ {t : Slot → Status}, pick t ≠ some p → Looks { s with status := t } s' →
      s'.tick p = s.tick p := by
    intro t hne hl
    cases hl with
    | nobody => rfl
    | @found r hr =>
      obtain rfl : r = p := Option.some.inj hc
      exact absurd hr hne
  cases h with
  | quiet | ended | leaves => rfl
  | @spawned i _ _ hi =>
    have hpi : p ≠ i := by
      rintro rfl
      cases hp.symm.trans hi
    exact update_of_ne hpi ..
  | waits hl =>
    refine hlooks (fun hr => ?_) hl
    exact pick_ne hr (by decide : Status.waiting ≠ .ready) (by decide) (update_self ..)
  | @endedWaking r _ hr hl =>
    have hpr : p ≠ r := by
      rintro rfl
      simp at hr
    refine hlooks (fun hpick => ?_) hl
    exact pick_ne hpick (by decide : Status.terminated ≠ .ready) (by decide) (by simp [hpr])
  | @woke r _ hr hl =>
    have hpr : p ≠ r := by
      rintro rfl
      cases hp.symm.trans hr
    refine hlooks (fun hpick => ?_) hl
    rcases pick_eq_some hpick with h | ⟨-, h⟩
    · simp [hpr, hp] at h
    · exact h r (by simp)

/-! ## Turns -/

/-- The process `p` is ready, another one is running, and at most `n` timer interrupts pass until
`p` runs. -/
structure Behind (p : Slot) (n : ℕ) (s : Core) : Prop where
  ready : s.status p = .ready
  bound : ∃ c, s.curr = some c ∧ s.status c = .running ∧
    hops (1 + c) p * (MAX_TICK + 1) + s.tick c < n

/-- The process `p` has the processor. -/
def Core.Runs (s : Core) (p : Slot) : Prop := s.curr = some p ∧ s.status p = .running

/-- **The search behind the running process comes closer to a process that is ready.** -/
theorem pick_closer (hc : t c = .running) (hone : ∀ i, t i = .running → i = c) (hp : t p = .ready)
    (hq : pick t = some q) (hqp : q ≠ p) : hops (1 + q) p < hops (1 + c) p := by
  rw [pick_of_running hc fun i j hi hj => (hone i hi).trans (hone j hj).symm] at hq
  rcases Option.or_eq_some_iff.mp hq with h | ⟨hn, -⟩
  · exact hops_lt c (cyclicFind_first (slot_succ_le c) h hp) hqp
  · exact absurd hp ((readyFrom_eq_none (slot_succ_le c)).mp hn p)

theorem Chosen.behind (h : Chosen t s) (hc : t c = .running) (hone : ∀ i, t i = .running → i = c)
    (hp : t p = .ready) (ht : s.Timed) :
    s.Runs p ∨ Behind p (hops (1 + c) p * (MAX_TICK + 1)) s := by
  obtain ⟨r, hr, hcurr, hst⟩ := h
  by_cases hrp : r = p
  · subst hrp
    exact .inl ⟨hcurr, by rw [hst, promote_self]⟩
  · have hlt := pick_closer hc hone hp hr hrp
    refine .inr ⟨?_, r, hcurr, by rw [hst, promote_self], ?_⟩
    · rw [hst, promote_of_ne (Ne.symm hrp), hp]
      rfl
    · have htr := ht r
      simp only [MAX_TICK] at htr ⊢
      omega

theorem Moves.serves {x y : View} {a : Call} (h : Moves x (some a) y) :
    ∃ p, x.s.curr = some p ∧ Serves p (x.s.emit (.call p a)) a y := by
  cases h with
  | served _ hp hy => exact ⟨_, hp, hy⟩

theorem Looks.chosen (h : Looks s s') (hp : s.status p = .ready) : Chosen s.status s' := by
  cases h with
  | nobody hn => exact absurd hn (pick_ne_none hp)
  | @found q hq => exact ⟨q, hq, rfl, rfl⟩

/-- **One step lets `p` run or keeps it waiting, and a timer interrupt brings its turn closer.** -/
theorem behind_step {l : Label} (hw : x.view.Wf) (ht : x.k.core.Timed) (h : Behind p n x.k.core)
    (hl : Stays x l) (he : step x l = some y) :
    y.k.core.Runs p ∨ ∃ n', Behind p n' y.k.core ∧ n' + timers [l] ≤ n := by
  obtain ⟨hp, c, hcurr, hc, hn⟩ := h
  have hone : ∀ i, x.k.core.status i = .running → i = c := by
    intro i hi
    exact Option.some.inj ((hw.s.running i hi).symm.trans hcurr)
  have heff := step_effect hw he
  have hty : y.k.core.Timed := heff.timed ht
  -- the next process has been chosen behind `c`
  have hchosen : timers [l] ≤ 1 → ∀ {t}, t c = .running → (∀ i, t i = .running → i = c) →
      t p = .ready → Chosen t y.k.core →
      y.k.core.Runs p ∨ ∃ n', Behind p n' y.k.core ∧ n' + timers [l] ≤ n := by
    intro h1 t htc htone htp hch
    refine (hch.behind htc htone htp hty).imp_right fun hb => ⟨_, hb, ?_⟩
    omega
  -- `c` goes on, and its time slice has not become longer
  have hstay : timers [l] = 0 → y.k.core.curr = some c → y.k.core.status c = .running →
      y.k.core.status p = .ready → y.k.core.tick c = x.k.core.tick c →
      y.k.core.Runs p ∨ ∃ n', Behind p n' y.k.core ∧ n' + timers [l] ≤ n := by
    intro h0 h1 h2 h3 h4
    exact .inr ⟨n, ⟨h3, c, h1, h2, by rw [h4]; exact hn⟩, by omega⟩
  have hmoves := step_moves hw he
  generalize hy : y.k.core = s' at heff hty hchosen hstay ⊢
  cases heff with
  | @called l p' a s' t hla hp' ha =>
    obtain rfl : p' = c := Option.some.inj (hp'.symm.trans hcurr)
    have h0 : timers [l] = 0 := by
      cases l <;> first | rfl | cases hla
    rw [hla] at hmoves
    obtain ⟨p'', hp'', hs⟩ := hmoves.serves
    obtain rfl : p'' = p' := Option.some.inj (hp''.symm.trans hp')
    rcases hs.turn (hl a hla) with ⟨h1, h2⟩ | ⟨i, hi, hch⟩
    · have hyc : y.k.currProc = some p'' := h1.trans hp'
      have hys : ∀ i, x.k.core.status i ≠ .new → y.k.core.status i = x.k.core.status i := h2
      rw [hy] at hys
      have hsc : s'.curr = some p'' := hy ▸ hyc
      refine hstay h0 hsc ?_ ?_ (ha.tick_eq hc hsc)
      · rw [hys p'' (by rw [hc]; decide), hc]
      · rw [hys p (by rw [hp]; decide), hp]
    · have hne : ∀ {j : Slot}, x.k.core.status j ≠ .waiting → j ≠ i := by
        rintro j hj rfl
        exact hj hi
      have hcore : x.k.sched.status = x.k.core.status := rfl
      rw [hy] at hch
      refine hchosen (by omega) ?_ (fun j hj => ?_) ?_ hch
      · exact (update_of_ne (hne (by rw [hc]; decide)) ..).trans hc
      · by_cases hji : j = i
        · subst hji
          rw [update_self] at hj
          cases hj
        · rw [update_of_ne hji] at hj
          exact hone j hj
      · exact (update_of_ne (hne (by rw [hp]; decide)) ..).trans hp
  | @ticked t p' t' hp' h0 =>
    obtain rfl : p' = c := Option.some.inj (hp'.symm.trans hcurr)
    refine .inr ⟨n - 1, ⟨hp, p', hp', hc, ?_⟩, ?_⟩
    · simp only [Core.tickDown_tick, Core.record_tick, update_self]
      omega
    · change n - 1 + 1 ≤ n
      omega
  | expired t' hp' h0 hlk =>
    have hch := hlk.chosen (p := p) hp
    exact hchosen le_rfl hc hone hp hch
  | idle t' hn => cases hn.symm.trans hcurr
  | started t' hn => cases hn.symm.trans hcurr
  | key => exact hstay rfl hcurr hc hp rfl
  | finished | readFile | failed => exact hstay rfl hcurr hc hp rfl
  | @created _ _ i r hi =>
    have hne : ∀ {j : Slot}, x.k.core.status j ≠ .new → j ≠ i := by
      rintro j hj rfl
      exact hj hi
    have hci := hne (j := c) (by rw [hc]; decide)
    have hpi := hne (j := p) (by rw [hp]; decide)
    exact hstay rfl hcurr ((update_of_ne hci ..).trans hc) ((update_of_ne hpi ..).trans hp)
      (update_of_ne hci ..)
  | scheduled hlk => exact hchosen (Nat.zero_le _) hc hone hp (hlk.chosen (p := p) hp)

/-- **The wait is bounded.** While no call yields, a process that is ready runs after at most
`MAX_TICK + 1` timer interrupts for each slot that it is behind the running process. -/
theorem waiting_bound (h : Reachable anyStep m) {ls : List Label} (hc : m.k.currProc = some c)
    (hrun : (m.k.procList c).status = .running) (hp : (m.k.procList p).status = .ready)
    (he : (Run.exec step m ls).isSome) (hs : Run.Meets step Stays m ls)
    (hn : (hops (1 + c) p + 1) * (MAX_TICK + 1) ≤ timers ls) :
    ∃ ls₁ ls₂, ls = ls₁ ++ ls₂ ∧ timers ls₁ ≤ (hops (1 + c) p + 1) * (MAX_TICK + 1) ∧
      ∃ y ∈ Run.exec step m ls₁, y.k.currProc = some p ∧ (y.k.procList p).status = .running := by
  refine Run.reaches_of_rank (P := fun n x => x.view.Wf ∧ x.k.core.Timed ∧ Behind p n x.k.core)
    (Q := fun y => y.k.core.Runs p) ?_ ?_ ls ⟨h.wf, h.timed, hp, c, hc, hrun, ?_⟩ he hs hn
  · rintro n s ⟨-, -, -, c, -, -, hn⟩
    omega
  · rintro n x l y ⟨hw, ht, hb⟩ hl hy
    refine (behind_step hw ht hb hl hy).imp_right ?_
    rintro ⟨n', hb', hn'⟩
    exact ⟨n', ⟨(step_moves hw hy).wf hw, (step_effect hw hy).timed ht, hb'⟩, hn'⟩
  · have := h.timed c
    simp only [MAX_TICK] at this ⊢
    omega

/-- Three programs, of which the first is running; the third runs after four timer interrupts. -/
theorem waiting_bound_three : ∃ m : Machine, m.k.currProc = some 0 ∧
    ∃ ls₁ ls₂, [Label.tick, .sys 13, .tick, .tick, .tick] = ls₁ ++ ls₂ ∧ timers ls₁ ≤ 4 ∧
      ∃ y ∈ Run.exec step m ls₁, y.k.currProc = some 2 ∧ (y.k.procList 2).status = .running := by
  obtain ⟨m, hm, hc, hrun, hp, he, hs⟩ := RunsTo.of_exec (G := anyStep.on)
    (P := fun m => m.k.currProc = some 0 ∧ (m.k.procList 0).status = .running ∧
      (m.k.procList 2).status = .ready ∧
      (Run.exec step m [Label.tick, .sys 13, .tick, .tick, .tick]).isSome = true ∧
      Run.Meets step Stays m [Label.tick, .sys 13, .tick, .tick, .tick])
    [.load, .load, .load, .schedule] (by decide +kernel) (by decide +kernel)
  exact ⟨m, hc, waiting_bound hm hc hrun hp he hs (by decide)⟩

end AdvancedOS
