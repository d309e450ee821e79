import AdvancedOS.Machine.Effects

/-!
# The time slice

A process is given `MAX_TICK` ticks when it becomes current. The timer takes them away one by one,
and the interrupt that finds none left looks for another process.

* `timers`: the number of timer interrupts among labels;
* `Held`: a process keeps the processor although another one is ready;
* `held_step`: one step takes the processor from it, or brings that closer;
* `quantum_bound`: **a running process keeps the processor for at most `MAX_TICK + 1` timer
  interrupts once another one is ready, and no tick count exceeds `MAX_TICK`.**
-/

namespace AdvancedOS

open Function (update)

variable {s s' : Core} {p q : Slot} {n : ℕ} {m : Machine}

namespace Label

/-- The label is a timer interrupt. -/
def isTimer : Label → Bool
  | .timer _ => true
  | _ => false

end Label

/-- The number of timer interrupts. -/
def timers (ls : List Label) : ℕ := ls.countP Label.isTimer

/-! ## Tick counts -/

/-- No tick count exceeds `MAX_TICK`. -/
def Core.Timed (s : Core) : Prop := ∀ i, s.tick i ≤ MAX_TICK

theorem Core.Timed.reset (h : s.Timed) (q : Slot) {s' : Core}
    (hs : s'.tick = update s.tick q MAX_TICK) : s'.Timed := by
  intro i
  rw [hs]
  by_cases hi : i = q
  · simp [hi]
  · simpa [hi] using h i

theorem Looks.timed (h : Looks s s') (hs : s.Timed) : s'.Timed := by
  cases h with
  | nobody => exact hs
  | found => exact hs.reset _ rfl

theorem Acts.timed {c : Call} (h : Acts p s c s') (hs : s.Timed) : s'.Timed := by
  cases h with
  | quiet | ended | leaves => exact hs
  | spawned => exact hs.reset _ rfl
  | waits h | endedWaking _ h | woke _ h => exact h.timed hs

theorem Effect.timed {l : Label} (h : Effect m l s') (hs : m.k.core.Timed) : s'.Timed := by
  cases h with
  | called t _ _ h => exact h.timed hs
  | @ticked t p =>
    intro i
    by_cases hi : i = p
    · have := hs p
      simp only [hi, Core.tickDown_tick, Core.record_tick, Function.update_self]
      omega
    · simpa [hi] using hs i
  | expired _ _ _ h | started _ _ h | scheduled h => exact h.timed hs
  | idle | key | finished | readFile | failed => exact hs
  | created => exact hs.reset _ rfl

theorem Reachable.timed (h : Reachable anyStep m) : m.k.core.Timed := by
  refine RunsTo.invariant (I := fun m => m.k.core.Timed) (fun _ _ _ i => Nat.zero_le _) ?_ h
  intro x l y hw hx _ he
  exact (step_effect hw he).timed hx

/-! ## Who holds the processor -/

/-- `p` has had the processor since another process became ready, or has left it to the shell, and
no more than `n` timer interrupts can pass before a process other than `p` is current. -/
structure Held (p : Slot) (n : ℕ) (s : Core) : Prop where
  other : ∃ q, q ≠ p ∧ s.status q = .ready
  status : s.status p = .running ∨ s.status p = .terminated
  curr : s.curr = none ∨ s.curr = some p ∧ s.tick p < n
  pos : 0 < n

/-- Another process is current. -/
def Core.Switched (p : Slot) (s : Core) : Prop := ∃ q, s.curr = some q ∧ q ≠ p

theorem Looks.switched (h : Looks s s') (hq : s.status q = .ready) (hp : s.status p ≠ .ready) :
    s'.Switched p := by
  cases h with
  | nobody hn => exact absurd hn (pick_ne_none hq)
  | @found r hr =>
    refine ⟨r, rfl, ?_⟩
    rintro rfl
    rcases pick_eq_some hr with h | ⟨-, h⟩
    · exact hp h
    · exact h q hq

namespace Held

theorem ne_ready (h : Held p n s) : s.status p ≠ .ready := by
  rcases h.status with h | h <;> simp [h]

theorem ne_new (h : Held p n s) : s.status p ≠ .new := by
  rcases h.status with h | h <;> simp [h]

theorem ne_waiting (h : Held p n s) : s.status p ≠ .waiting := by
  rcases h.status with h | h <;> simp [h]

theorem looks (h : Held p n s) (hl : Looks s s') : s'.Switched p := by
  obtain ⟨q, -, hq⟩ := h.other
  exact hl.switched hq h.ne_ready

theorem frame (h : Held p n s) (hs : s'.status = s.status) (ht : s'.tick = s.tick)
    (hc : s'.curr = s.curr) : Held p n s' where
  other := by rw [hs]; exact h.other
  status := by rw [hs]; exact h.status
  curr := by rw [hc, ht]; exact h.curr
  pos := h.pos

theorem spawn (h : Held p n s) {i : Slot} (hi : s.status i = .new) (r : Regs) (t : ℕ) :
    Held p n (s.spawn i r t) := by
  obtain ⟨q, hqp, hq⟩ := h.other
  have hqi : q ≠ i := by
    rintro rfl
    rw [hi] at hq
    cases hq
  have hpi : p ≠ i := by
    rintro rfl
    exact h.ne_new hi
  exact ⟨⟨q, hqp, by simpa [hqi] using hq⟩, by simpa [hpi] using h.status,
    by simpa [hpi] using h.curr, h.pos⟩

theorem terminate (h : Held p n s) : Held p n (s.setStatus p .terminated) := by
  obtain ⟨q, hqp, hq⟩ := h.other
  exact ⟨⟨q, hqp, by simpa [hqp] using hq⟩, by simp, h.curr, h.pos⟩

theorem wake (h : Held p n s) {i : Slot} (hi : s.status i = .waiting) :
    Held p n (s.setStatus i .ready) := by
  have hpi : p ≠ i := by
    rintro rfl
    exact h.ne_waiting hi
  exact ⟨⟨i, hpi.symm, by simp⟩, by simpa [hpi] using h.status, h.curr, h.pos⟩

/-- **No system call of `p` lets it keep the processor longer.** -/
theorem acts {c : Call} (h : Held p n s) (ha : Acts p s c s') : s'.Switched p ∨ Held p n s' := by
  cases ha with
  | quiet => exact .inr h
  | spawned _ hi => exact .inr (h.spawn hi _ _)
  | waits hl =>
    obtain ⟨q, hqp, hq⟩ := h.other
    exact .inl (hl.switched (q := q) (by simpa [hqp] using hq) (by simp))
  | ended => exact .inr h.terminate
  | endedWaking hq hl => exact .inl ((h.terminate.wake hq).looks hl)
  | woke hi hl => exact .inl ((h.wake hi).looks hl)
  | leaves =>
    have ht := h.terminate
    exact .inr ⟨ht.other, ht.status, .inl rfl, h.pos⟩

end Held

/-- **One step takes the processor from `p`, and a timer interrupt brings that closer.** -/
theorem held_step {x y : Machine} {l : Label} (hw : x.view.Wf) (h : Held p n x.k.core)
    (he : step x l = some y) :
    y.k.core.Switched p ∨ ∃ n', Held p n' y.k.core ∧ n' + timers [l] ≤ n := by
  have hkeep : ∀ {s'}, timers [l] = 0 → s'.Switched p ∨ Held p n s' →
      s'.Switched p ∨ ∃ n', Held p n' s' ∧ n' + timers [l] ≤ n := by
    intro s' hl hs'
    exact hs'.imp_right fun hh => ⟨n, hh, by omega⟩
  have hcurr : ∀ {p'}, x.k.currProc = some p' → p' = p ∧ x.k.core.tick p < n := by
    intro p' hp'
    rcases h.curr with hn | ⟨hp, ht⟩
    · exact absurd (hn.symm.trans hp') (by simp)
    · exact ⟨Option.some.inj (hp'.symm.trans hp), ht⟩
  have heff := step_effect hw he
  generalize y.k.core = s' at heff ⊢
  cases heff with
  | @called l p' c s' t hl hp' ha =>
    obtain ⟨rfl, -⟩ := hcurr hp'
    have h' : Held p' n ((x.k.core.record (.trap t)).save p' (cdecl (entryStack t))) :=
      h.frame rfl rfl rfl
    refine hkeep ?_ (h'.acts ha)
    cases l <;> first | rfl | cases hl
  | @ticked t p' t' hp' h0 =>
    obtain ⟨rfl, ht⟩ := hcurr hp'
    refine .inr ⟨n - 1, ⟨h.other, h.status, .inr ⟨hp', ?_⟩, by omega⟩, ?_⟩
    · simp only [Core.tickDown_tick, Core.record_tick, Function.update_self]
      omega
    · change n - 1 + 1 ≤ n
      omega
  | @expired t p' s' t' hp' h0 hl =>
    have h' : Held p n ((x.k.core.record (.trap t')).save p' (cdecl (entryStack t'))) :=
      h.frame rfl rfl rfl
    exact .inl (h'.looks hl)
  | idle t' hn h0 => exact absurd h0 (currPid_ne_zero hw.s h.ne_new)
  | started t' hn hl =>
    have h' : Held p n (x.k.core.record (.trap t')) := h.frame rfl rfl rfl
    exact .inl (h'.looks hl)
  | key => exact hkeep rfl (.inr (h.frame rfl rfl rfl))
  | finished | readFile | failed => exact hkeep rfl (.inr h)
  | created hi => exact hkeep rfl (.inr (h.spawn hi _ _))
  | scheduled hl => exact .inl (h.looks hl)

/-- **Along a run with `n` timer interrupts another process becomes current.** -/
theorem held_run : ∀ (ls : List Label) {n : ℕ} {x : Machine}, x.view.Wf → Held p n x.k.core →
    (Run.exec step x ls).isSome → n ≤ timers ls →
    ∃ ls₁ ls₂, ls = ls₁ ++ ls₂ ∧ timers ls₁ ≤ n ∧
      ∃ y ∈ Run.exec step x ls₁, y.k.core.Switched p
  | [], n, x, _, h, _, hn => by
    have := h.pos
    simp only [timers, List.countP_nil, Nat.le_zero] at hn
    omega
  | l :: ls, n, x, hw, h, he, hn => by
    obtain ⟨y, hy, he⟩ : ∃ y, step x l = some y ∧ (Run.exec step y ls).isSome := by
      cases hy : step x l with
      | none => simp [Run.exec, hy] at he
      | some y => exact ⟨y, rfl, by simpa [Run.exec, hy] using he⟩
    have hcons : ∀ ls, timers (l :: ls) = timers [l] + timers ls := by
      intro ls
      show List.countP _ ([l] ++ ls) = _
      exact List.countP_append
    rw [hcons] at hn
    rcases held_step hw h hy with hs | ⟨n', hh, hn'⟩
    · refine ⟨[l], ls, rfl, ?_, y, by simp [Run.exec, hy], hs⟩
      have := h.pos
      have hle : timers [l] ≤ 1 := List.countP_le_length
      omega
    · obtain ⟨ls₁, ls₂, rfl, hle, z, hz, hs⟩ :=
        held_run ls ((step_moves hw hy).wf hw) hh he (by omega)
      refine ⟨l :: ls₁, ls₂, rfl, ?_, z, by simpa [Run.exec, hy] using hz, hs⟩
      rw [hcons]
      omega

/-- **The quantum bound.** In a reachable state the current process has at most `MAX_TICK` ticks
left; if it is running and another process is ready, a process other than it is current after at
most `MAX_TICK + 1` timer interrupts, wherever they are taken and whatever it does meanwhile. -/
theorem quantum_bound (h : Reachable anyStep m) :
    (∀ p, m.k.currProc = some p → (m.k.procList p).tick ≤ MAX_TICK) ∧
      ∀ p q ls, m.k.currProc = some p → (m.k.procList p).status = .running → q ≠ p →
        (m.k.procList q).status = .ready → (Run.exec step m ls).isSome →
        MAX_TICK + 1 ≤ timers ls →
        ∃ ls₁ ls₂, ls = ls₁ ++ ls₂ ∧ timers ls₁ ≤ MAX_TICK + 1 ∧
          ∃ y ∈ Run.exec step m ls₁, ∃ p', y.k.currProc = some p' ∧ p' ≠ p := by
  have ht := h.timed
  refine ⟨fun p _ => ht p, fun p q ls hp hrun hqp hq he hn => ?_⟩
  exact held_run ls h.wf ⟨⟨q, hqp, hq⟩, .inl hrun, .inr ⟨hp, Nat.lt_succ_of_le (ht p)⟩, by simp⟩
    he hn

/-- Two programs, of which the first is running. -/
theorem quantum_bound_two : ∃ m : Machine, m.k.currProc = some 0 ∧
    (∀ p, m.k.currProc = some p → (m.k.procList p).tick ≤ MAX_TICK) ∧
      ∃ ls₁ ls₂, [Label.tick, .sys 13, .tick] = ls₁ ++ ls₂ ∧ timers ls₁ ≤ MAX_TICK + 1 ∧
        ∃ y ∈ Run.exec step m ls₁, ∃ p', y.k.currProc = some p' ∧ p' ≠ 0 := by
  obtain ⟨m, hm, hp, hrun, hq, he⟩ := RunsTo.of_exec (G := anyStep.on)
    (P := fun m => m.k.currProc = some 0 ∧ (m.k.procList 0).status = .running ∧
      (m.k.procList 1).status = .ready ∧
      (Run.exec step m [Label.tick, .sys 13, .tick]).isSome = true)
    [.load, .load, .schedule] (by decide +kernel) (by decide +kernel)
  have hb := quantum_bound hm
  exact ⟨m, hp, hb.1, hb.2 0 1 _ hp hrun (by decide) hq he (by decide)⟩

end AdvancedOS
