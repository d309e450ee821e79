import AdvancedOS.Sched.History
import Mathlib.Data.Finset.Card

/-!
# Semaphore safety

A semaphore obtained with the value `v` should let at most `v` plus the number of `do_sem_v` calls
through. What the counter promises rests on the processes that really sleep: `-val` is at most their
number as long as nobody is let through without a `do_sem_v`.

* `passes i`, `releases i`: the `do_sem_p(i)` calls that their callers have gone on from, and the
  `do_sem_v(i)` calls;
* `Sched.Balanced`: the counter in terms of the history, and the sleepers that it promises;
* `blocksAndWakes`: the condition on the steps;
* `semaphore_safety`: **under this condition at most `v` plus the number of releases go through**;
* `semaphore_alone`: a single process goes through a semaphore with no units.
-/

namespace AdvancedOS

open Function (update)

variable {s s' : Sched} {tr : List Event} {c c' : Option Slot} {p q h : Slot} {i j : SemId}

/-- The `do_sem_p(i)` calls that their callers have gone on from. -/
def passes (i : SemId) : List Event → ℕ := returned fun _ c => c = .semP i

/-- The `do_sem_v(i)` calls. -/
def releases (i : SemId) : List Event → ℕ := called fun _ c => c = .semV i

/-- The processes that are in `do_sem_p(i)`. -/
def inFlight (i : SemId) (tr : List Event) : Finset Slot :=
  Finset.univ.filter fun p => pending tr p = some (.semP i)

/-- The processes other than `c` that sleep in `do_sem_p(i)`. -/
def Sched.asleep (i : SemId) (c : Option Slot) (s : Sched) : Finset Slot :=
  Finset.univ.filter fun p => pending s.trace p = some (.semP i) ∧ s.status p = .waiting ∧
    c ≠ some p

@[simp] theorem mem_inFlight : p ∈ inFlight i tr ↔ pending tr p = some (.semP i) := by
  simp [inFlight]

@[simp] theorem mem_asleep : p ∈ s.asleep i c ↔
    pending s.trace p = some (.semP i) ∧ s.status p = .waiting ∧ c ≠ some p := by
  simp [Sched.asleep]

theorem asleep_subset : s.asleep i c ⊆ inFlight i s.trace := by
  intro p hp
  rw [mem_asleep] at hp
  exact mem_inFlight.mpr hp.1

/-! ## The history of one semaphore -/

theorem semP_inj (hij : (Call.semP (i : ℤ)) = .semP (j : ℤ)) : i = j := by
  rw [Call.semP.injEq] at hij
  exact Fin.ext (by exact_mod_cast hij)

theorem semV_inj (hij : (Call.semV (i : ℤ)) = .semV (j : ℤ)) : i = j := by
  rw [Call.semV.injEq] at hij
  exact Fin.ext (by exact_mod_cast hij)

theorem inFlight_call {tr' : List Event} {d : Call}
    (ht : pending tr' = update (pending tr) p (some d)) (hp : p ∉ inFlight i tr) :
    inFlight i tr' = if d = .semP i then insert p (inFlight i tr) else inFlight i tr := by
  ext q
  rw [mem_inFlight, ht]
  by_cases hqp : q = p
  · subst hqp
    split_ifs with hd <;> simp_all
  · split_ifs with hd <;> simp [hqp]

theorem inFlight_goesOn : inFlight i (.goesOn p :: tr) = (inFlight i tr).erase p := by
  ext q
  by_cases hqp : q = p
  · subst hqp
    simp
  · simp [hqp]

theorem passes_goesOn : passes i (.goesOn p :: tr) =
    passes i tr + if p ∈ inFlight i tr then 1 else 0 := by
  have hany : ((pending tr p).any fun c => decide (c = .semP i)) =
      decide (p ∈ inFlight i tr) := by
    cases hp : pending tr p <;> simp [hp]
  simp only [passes, returned, hany]
  split_ifs with h <;> simp [h]

theorem releases_call (d : Call) : releases i (.call p d :: tr) =
    releases i tr + if d = .semV i then 1 else 0 := by
  simp only [releases, called]
  split_ifs with h <;> simp [h]

/-! ## The invariant -/

/-- Nothing has happened to a semaphore that was not obtained. The counter of one that was obtained
with `v` is `v` plus the releases less the `do_sem_p` calls, and if it is negative, as many
processes other than `c` sleep. -/
structure Sched.Balanced (c : Option Slot) (s : Sched) : Prop where
  fresh : ∀ i, (s.sem i).used = false → passes i s.trace = 0 ∧ releases i s.trace = 0 ∧
    inFlight i s.trace = ∅ ∧ ∀ v, .gotSem i v ∉ s.trace
  val : ∀ i v, .gotSem i v ∈ s.trace →
    (s.sem i).val + passes i s.trace + (inFlight i s.trace).card = v + releases i s.trace
  asleep : ∀ i v, .gotSem i v ∈ s.trace → 0 ≤ v → -(s.sem i).val ≤ (s.asleep i c).card

namespace Sched.Balanced

theorem passes_le (hs : s.Balanced c) {v : ℤ} (hg : .gotSem i v ∈ s.trace) (hv : 0 ≤ v) :
    (passes i s.trace : ℤ) ≤ v + releases i s.trace := by
  have h1 := hs.val i v hg
  have h2 := hs.asleep i v hg hv
  have h3 : (s.asleep i c).card ≤ (inFlight i s.trace).card := Finset.card_le_card asleep_subset
  omega

theorem step (hs : s.Balanced c) (i : SemId) (hi : (s.sem i).used = true) {x : Semaphore}
    (hsem : s'.sem = update s.sem i x) (hxu : x.used = (s.sem i).used)
    (hpass : ∀ j, passes j s'.trace = passes j s.trace)
    (hrel : ∀ j, j ≠ i → releases j s'.trace = releases j s.trace)
    (hfl : ∀ j, j ≠ i → inFlight j s'.trace = inFlight j s.trace)
    (hgot : ∀ j v, .gotSem j v ∈ s'.trace ↔ .gotSem j v ∈ s.trace)
    (hsub : ∀ j, j ≠ i → s.asleep j c ⊆ s'.asleep j c')
    (hvi : x.val + (inFlight i s'.trace).card + releases i s.trace =
      (s.sem i).val + (inFlight i s.trace).card + releases i s'.trace)
    (hai : -(s.sem i).val ≤ (s.asleep i c).card → -x.val ≤ (s'.asleep i c').card) :
    s'.Balanced c' where
  fresh j hj := by
    rw [hsem] at hj
    have hji : j ≠ i := by
      rintro rfl
      rw [Function.update_self, hxu, hi] at hj
      cases hj
    rw [Function.update_of_ne hji] at hj
    rw [hpass, hrel j hji, hfl j hji]
    simp only [hgot]
    exact hs.fresh j hj
  val j v hg := by
    rw [hgot] at hg
    have := hs.val j v hg
    rw [hsem, hpass]
    by_cases hji : j = i
    · subst hji
      rw [Function.update_self]
      omega
    · rwa [Function.update_of_ne hji, hfl j hji, hrel j hji]
  asleep j v hg hv := by
    rw [hgot] at hg
    have := hs.asleep j v hg hv
    rw [hsem]
    by_cases hji : j = i
    · subst hji
      rw [Function.update_self]
      exact hai this
    · rw [Function.update_of_ne hji]
      have hcard := Finset.card_le_card (hsub j hji)
      omega

theorem same (hs : s.Balanced c) (hsem : s'.sem = s.sem)
    (hpass : ∀ j, passes j s'.trace = passes j s.trace)
    (hrel : ∀ j, releases j s'.trace = releases j s.trace)
    (hfl : ∀ j, inFlight j s'.trace = inFlight j s.trace)
    (hgot : ∀ j v, .gotSem j v ∈ s'.trace ↔ .gotSem j v ∈ s.trace)
    (hsub : ∀ j, s.asleep j c ⊆ s'.asleep j c') : s'.Balanced c' where
  fresh j hj := by
    rw [hsem] at hj
    rw [hpass, hrel, hfl]
    simp only [hgot]
    exact hs.fresh j hj
  val j v hg := by
    rw [hgot] at hg
    rw [hsem, hpass, hrel, hfl]
    exact hs.val j v hg
  asleep j v hg hv := by
    rw [hgot] at hg
    rw [hsem]
    have := hs.asleep j v hg hv
    have hcard := Finset.card_le_card (hsub j)
    omega

/-- Another process may be excluded and statuses may change, as long as no sleeper is woken. -/
theorem mono (hs : s.Balanced c) (hsem : s'.sem = s.sem) (ht : s'.trace = s.trace)
    (hsub : ∀ j, s.asleep j c ⊆ s'.asleep j c') : s'.Balanced c' := by
  refine hs.same hsem ?_ ?_ ?_ ?_ hsub <;> rw [ht] <;> simp

theorem silent (hs : s.Balanced c) {e : Event} (he : e.Silent) (hne : ∀ i v, e ≠ .gotSem i v) :
    (s.emit e).Balanced c := by
  have hp : pending (s.emit e).trace = pending s.trace := pending_silent he
  refine hs.same rfl (fun _ => returned_silent _ he) (fun _ => called_silent _ he) ?_ ?_ ?_
  · intro j
    simp only [inFlight, hp]
  · intro j v
    rw [Sched.emit_trace, List.mem_cons]
    exact or_iff_right (hne j v).symm
  · intro j p hq
    rw [mem_asleep] at hq ⊢
    rwa [hp]

theorem call (hs : s.Balanced c) {d : Call} (hp : ∀ i, p ∉ inFlight i s.trace)
    (hd : ∀ i : SemId, d ≠ .semP i ∧ d ≠ .semV i) : (s.emit (.call p d)).Balanced c := by
  refine hs.same rfl (fun _ => rfl) ?_ ?_ ?_ ?_
  · intro j
    rw [Sched.emit_trace, releases_call, if_neg (hd j).2, Nat.add_zero]
  · intro j
    rw [Sched.emit_trace, inFlight_call pending_call (hp j), if_neg (hd j).1]
  · simp
  · intro j q hq
    rw [mem_asleep] at hq ⊢
    have hqp : q ≠ p := fun e => hp j (e ▸ mem_inFlight.mpr hq.1)
    simpa [hqp] using hq

/-- The current process goes on: it was in flight, not asleep. -/
theorem goesOn (hs : s.Balanced (some p)) : (s.emit (.goesOn p)).Balanced (some p) where
  fresh j hj := by
    obtain ⟨h1, h2, h3, h4⟩ := hs.fresh j hj
    rw [Sched.emit_trace, passes_goesOn, inFlight_goesOn, h1, h3]
    exact ⟨by simp, h2, by simp, by simpa using h4⟩
  val j v hg := by
    have hv := hs.val j v (by simpa using hg)
    have hrel : releases j (.goesOn p :: s.trace) = releases j s.trace := rfl
    rw [Sched.emit_trace, Sched.emit_sem, passes_goesOn, inFlight_goesOn, hrel]
    split_ifs with hp
    · have := Finset.card_erase_add_one hp
      omega
    · rw [Finset.erase_eq_of_notMem hp]
      omega
  asleep j v hg hv := by
    have ha := hs.asleep j v (by simpa using hg) hv
    have hsub : s.asleep j (some p) ⊆ (s.emit (.goesOn p)).asleep j (some p) := by
      intro q hq
      rw [mem_asleep] at hq ⊢
      have hqp : q ≠ p := fun e => hq.2.2 (e ▸ rfl)
      simpa [hqp] using hq
    have hcard := Finset.card_le_card hsub
    rw [Sched.emit_sem]
    omega

theorem semP (hs : s.Balanced (some p)) (hp : ∀ j, p ∉ inFlight j s.trace)
    (hi : (s.sem i).used = true) {x : Semaphore} (hx : x.val = (s.sem i).val - 1)
    (hxu : x.used = (s.sem i).used) (hsem : s'.sem = update s.sem i x)
    (hpend : pending s'.trace = update (pending s.trace) p (some (.semP i)))
    (hpass : ∀ j, passes j s'.trace = passes j s.trace)
    (hrel : ∀ j, releases j s'.trace = releases j s.trace)
    (hgot : ∀ j v, .gotSem j v ∈ s'.trace ↔ .gotSem j v ∈ s.trace)
    (hsub : ∀ j, j ≠ i → s.asleep j (some p) ⊆ s'.asleep j c')
    (hai : 0 < (s.sem i).val ∨ (s.asleep i (some p)).card + 1 ≤ (s'.asleep i c').card) :
    s'.Balanced c' := by
  refine hs.step i hi hsem hxu hpass (fun j _ => hrel j) ?_ hgot hsub ?_ (by rw [hx]; omega)
  · intro j hji
    rw [inFlight_call hpend (hp j), if_neg fun e => hji (semP_inj e).symm]
  · rw [inFlight_call hpend (hp i), if_pos rfl, Finset.card_insert_of_notMem (hp i), hx,
      hrel i]
    omega

theorem semV (hs : s.Balanced (some p)) (hp : ∀ j, p ∉ inFlight j s.trace)
    (hi : (s.sem i).used = true) {x : Semaphore} (hx : x.val = (s.sem i).val + 1)
    (hxu : x.used = (s.sem i).used) (hsem : s'.sem = update s.sem i x)
    (hpend : pending s'.trace = update (pending s.trace) p (some (.semV i)))
    (hpass : ∀ j, passes j s'.trace = passes j s.trace)
    (hrel : ∀ j, releases j s'.trace = releases j (.call p (.semV i) :: s.trace))
    (hgot : ∀ j v, .gotSem j v ∈ s'.trace ↔ .gotSem j v ∈ s.trace)
    (hsub : ∀ j, j ≠ i → s.asleep j (some p) ⊆ s'.asleep j c')
    (hai : 0 ≤ (s.sem i).val ∨ (s.asleep i (some p)).card ≤ (s'.asleep i c').card + 1) :
    s'.Balanced c' := by
  have hfl : ∀ j, inFlight j s'.trace = inFlight j s.trace := by
    intro j
    rw [inFlight_call hpend (hp j), if_neg (by simp)]
  refine hs.step i hi hsem hxu hpass ?_ (fun j _ => hfl j) hgot hsub ?_ (by rw [hx]; omega)
  · intro j hji
    rw [hrel, releases_call, if_neg fun e => hji (semV_inj e).symm, Nat.add_zero]
  · rw [hfl, hrel, releases_call, if_pos rfl, hx]
    omega

theorem gotSem (hs : s.Balanced c) (hi : (s.sem i).used = false) {v : ℤ} {x : Semaphore}
    (hx : x.val = v) (hxu : x.used = true) : ((s.setSem i x).emit (.gotSem i v)).Balanced c where
  fresh j hj := by
    have hji : j ≠ i := by
      rintro rfl
      simp [hxu] at hj
    obtain ⟨h1, h2, h3, h4⟩ := hs.fresh j (by simpa [hji] using hj)
    exact ⟨h1, h2, h3, by simpa [hji] using h4⟩
  val j w hg := by
    have hpass : passes j (.gotSem i v :: s.trace) = passes j s.trace := rfl
    have hrel : releases j (.gotSem i v :: s.trace) = releases j s.trace := rfl
    have hfl : inFlight j (.gotSem i v :: s.trace) = inFlight j s.trace := rfl
    simp only [Sched.emit_trace, Sched.emit_sem, Sched.setSem_trace, Sched.setSem_sem, hpass, hrel,
      hfl, List.mem_cons, Event.gotSem.injEq] at hg ⊢
    by_cases hji : j = i
    · subst hji
      obtain ⟨h1, h2, h3, h4⟩ := hs.fresh j hi
      have hw : w = v := hg.elim (fun h => h.2) fun h => absurd h (h4 w)
      rw [h1, h2, h3, Function.update_self, hx, hw]
      simp
    · rw [Function.update_of_ne hji]
      exact hs.val j w (hg.resolve_left fun h => hji h.1)
  asleep j w hg hw := by
    simp only [Sched.emit_trace, Sched.emit_sem, Sched.setSem_trace, Sched.setSem_sem,
      List.mem_cons, Event.gotSem.injEq] at hg ⊢
    by_cases hji : j = i
    · subst hji
      have hwv : w = v := hg.elim (fun h => h.2) fun h => absurd h ((hs.fresh j hi).2.2.2 w)
      rw [Function.update_self, hx]
      omega
    · rw [Function.update_of_ne hji]
      exact hs.asleep j w (hg.resolve_left fun h => hji h.1) hw

end Sched.Balanced

/-! ## Steps -/

/-- A blocking `do_sem_p` finds a process to run; a `do_sem_v` wakes no process that sleeps for
another semaphore, and neither does an exit wake a parent that sleeps for a semaphore. Semaphores
are used as long as they are obtained, and are not freed. -/
def blocksAndWakes : Guard
  | x, some (.semP id) => ∀ i : SemId, id = i → (x.s.sem i).used = true ∧
    ((x.s.sem i).val ≤ 0 → ∃ q, x.s.curr ≠ some q ∧ x.s.status q = .ready)
  | x, some (.semV id) => ∀ i : SemId, id = i → (x.s.sem i).used = true ∧
    ((x.s.sem i).val < 0 → ∀ h, (x.s.sem i).head = some h → x.s.status h = .waiting →
      ∀ j, j ≠ i → pending x.s.trace h ≠ some (.semP j))
  | _, some (.freeSem _) => False
  | x, some .exit | x, some .threadExit => ∀ p, x.s.curr = some p → ∀ q, x.s.parent p = some q →
    x.s.status q = .waiting → ∀ i : SemId, pending x.s.trace q ≠ some (.semP i)
  | _, some _ | _, none => True

instance (x : View) : (c : Option Call) → Decidable (blocksAndWakes x c)
  | some (.semP id) | some (.semV id) => inferInstanceAs (Decidable (∀ i : SemId, id = i → _))
  | some (.freeSem _) => isFalse id
  | some .exit | some .threadExit => inferInstanceAs (Decidable (∀ p, x.s.curr = some p → _))
  | none | some .logo | some .busy | some .fork | some .wait | some .getPid | some (.getSem _)
  | some .processReturn | some (.threadCreate ..) | some (.threadJoin _) | some .threadSelf
  | some (.file _) | some .unknown => isTrue trivial

theorem Seeks.balanced {m : Mode} {y : View} (h : Seeks s m y) (hs : s.Balanced c)
    (hc : pick s.status = none → c = s.curr) : y.s.Balanced y.s.curr := by
  have hswitch : ∀ {q}, pick s.status = some q → (s.switchTo q).Balanced (some q) := by
    intro q hq
    refine (hs.silent (e := .picked s.status (some q)) trivial (by simp)).mono rfl rfl ?_
    intro j p hp
    rw [mem_asleep] at hp ⊢
    refine ⟨hp.1, (promote_pick hq (by decide) (by decide)).mpr hp.2.1, ?_⟩
    rintro ⟨⟩
    exact pick_ne hq (by decide) (by decide) hp.2.1
  cases h with
  | nobody hn => exact hc hn ▸ hs.silent trivial (by simp)
  | user hq => exact (hswitch hq).goesOn
  | lost hq => exact hswitch hq

theorem asleep_subset_update {st : Status} (hq : s.status q = .waiting → ∀ j : SemId,
    pending s.trace q ≠ some (.semP j)) (hsub : s'.status = update s.status q st)
    (ht : pending s'.trace = pending s.trace) : s.asleep j c ⊆ s'.asleep j c := by
  intro p hp
  rw [mem_asleep] at hp ⊢
  have hpq : p ≠ q := by
    rintro rfl
    exact hq hp.2.1 j hp.1
  rw [ht, hsub, Function.update_of_ne hpq]
  exact hp

theorem Sched.Balanced.spawn (hs : s.Balanced c) {k : Slot} (hk : s.status k = .new)
    (parent : Option Slot) : (s.spawn k parent).Balanced c := by
  refine hs.mono rfl rfl fun j => asleep_subset_update (q := k) (fun hw => ?_) rfl rfl
  rw [hk] at hw
  cases hw

theorem asleep_subset_others (hst : ∀ q, q ≠ p → s'.status q = s.status q)
    (ht : ∀ q, q ≠ p → pending s'.trace q = pending s.trace q) :
    s.asleep j (some p) ⊆ s'.asleep j (some p) := by
  intro q hq
  rw [mem_asleep] at hq ⊢
  have hqp : q ≠ p := fun e => hq.2.2 (e ▸ rfl)
  rw [ht q hqp, hst q hqp]
  exact hq

theorem asleep_subset_self {st : Status} (hst : s'.status = update s.status p st)
    (ht : pending s'.trace = pending s.trace) : s.asleep j (some p) ⊆ s'.asleep j (some p) :=
  asleep_subset_others (fun q hq => by rw [hst, Function.update_of_ne hq]) fun q _ => by rw [ht]

theorem asleep_subset_call {d : Call} (hst : s'.status = s.status)
    (ht : pending s'.trace = update (pending s.trace) p (some d)) :
    s.asleep j (some p) ⊆ s'.asleep j (some p) :=
  asleep_subset_others (fun q _ => by rw [hst]) fun q hq => by rw [ht, Function.update_of_ne hq]

namespace Sched.Balanced

theorem ended (hs : s.Balanced (some p)) : (s.ended p).Balanced (some p) :=
  (hs.silent (e := .terminated p) trivial (by simp)).mono rfl rfl
    fun _ => asleep_subset_self rfl rfl

theorem woke (hs : s.Balanced c)
    (hq : s.status q = .waiting → ∀ j : SemId, pending s.trace q ≠ some (.semP j)) :
    (s.woke q).Balanced c :=
  (hs.silent (e := .woken q) trivial (by simp)).mono rfl rfl
    fun _ => asleep_subset_update (q := q) hq rfl rfl

theorem queued (hs : s.Balanced (some p)) (hp : ∀ j, p ∉ inFlight j s.trace)
    (hi : (s.sem i).used = true) : ((s.emit (.call p (.semP i))).queued p i).Balanced none := by
  have hpend : pending (.blocked p i :: .call p (.semP i) :: s.trace) =
      update (pending s.trace) p (some (.semP i)) := rfl
  have hsub : ∀ j, s.asleep j (some p) ⊆
      ((s.emit (.call p (.semP i))).queued p i).asleep j none := by
    intro j q hq
    rw [mem_asleep] at hq ⊢
    have hqp : q ≠ p := fun e => hq.2.2 (e ▸ rfl)
    refine ⟨?_, ?_, by simp⟩
    · rw [Sched.queued_trace, Sched.emit_trace, hpend, Function.update_of_ne hqp]
      exact hq.1
    · simpa [hqp] using hq.2.1
  refine hs.semP (x := ⟨(s.sem i).val - 1, (s.sem i).used, some p⟩) hp hi rfl rfl rfl
    rfl (fun _ => rfl) (fun _ => rfl) (by simp) (fun j _ => hsub j) (.inr ?_)
  have hnot : p ∉ s.asleep i (some p) := by simp
  have hin : insert p (s.asleep i (some p)) ⊆
      ((s.emit (.call p (.semP i))).queued p i).asleep i none := by
    rw [Finset.insert_subset_iff, mem_asleep, Sched.queued_trace, Sched.emit_trace, hpend]
    exact ⟨⟨by simp, by simp, by simp⟩, hsub i⟩
  rw [← Finset.card_insert_of_notMem hnot]
  exact Finset.card_le_card hin

theorem wakes (hs : s.Balanced (some p)) (hp : ∀ j, p ∉ inFlight j s.trace)
    (hi : (s.sem i).used = true) (hh : ∀ j, j ≠ i → pending s.trace h ≠ some (.semP j))
    {x : Semaphore} (hx : x.val = (s.sem i).val + 1) (hxu : x.used = (s.sem i).used) :
    (((s.emit (.call p (.semV i))).setSem i x).woke h).Balanced (some p) := by
  -- whoever sleeps, but for the process that is woken, sleeps on
  have hkeep : ∀ j q, q ∈ s.asleep j (some p) → q ≠ h →
      q ∈ (((s.emit (.call p (.semV i))).setSem i x).woke h).asleep j (some p) := by
    intro j q hq hqh
    have hsub : s.asleep j (some p) ⊆ (s.emit (.call p (.semV i))).asleep j (some p) :=
      asleep_subset_call rfl rfl
    have hq' := hsub hq
    rw [mem_asleep] at hq' ⊢
    refine ⟨hq'.1, ?_, hq'.2.2⟩
    simpa [hqh] using hq'.2.1
  refine hs.semV (x := x) hp hi hx hxu rfl rfl (fun _ => rfl) (fun _ => rfl) (by simp) ?_ (.inr ?_)
  · intro j hji q hq
    refine hkeep j q hq ?_
    rintro rfl
    rw [mem_asleep] at hq
    exact hh j hji hq.1
  · refine (Finset.card_le_card fun q hq => ?_).trans (Finset.card_insert_le h _)
    rw [Finset.mem_insert]
    by_cases hqh : q = h
    · exact .inl hqh
    · exact .inr (hkeep i q hq hqh)

end Sched.Balanced

theorem no_sem_call {d : Call} (hd : d.Quiet ∨ d.Spawns ∨ d.Waits ∨ d.Exits) (i : SemId) :
    d ≠ .semP i ∧ d ≠ .semV i := by
  constructor <;> rintro rfl <;> simp [Call.Quiet, Call.Spawns, Call.Waits, Call.Exits] at hd

theorem blocksAndWakes.exits {x : View} {d : Call} (hd : d.Exits) (h : blocksAndWakes x (some d))
    (hp : x.s.curr = some p) (hq : x.s.parent p = some q) (hw : x.s.status q = .waiting)
    (i : SemId) : pending x.s.trace q ≠ some (.semP i) := by
  cases d with
  | exit | threadExit => exact h p hp q hq hw i
  | _ => exact hd.elim

theorem Serves.balanced {d : Call} {y : View} (h : Serves p (s.emit (.call p d)) d y)
    (hs : s.Balanced (some p)) (hp : s.curr = some p) (hfl : ∀ j, p ∉ inFlight j s.trace)
    {m : Mode} (hg : blocksAndWakes ⟨m, s⟩ (some d)) (hy : ∀ f, y.mode ≠ .fault f) :
    y.s.Balanced y.s.curr := by
  have hcall := fun hd => hs.call (d := d) hfl hd
  have hcurr : ∀ {s' : Sched}, s'.Balanced (some p) → s'.curr = some p → s'.Balanced s'.curr := by
    intro s' h1 h2
    rwa [h2]
  have hgo : ∀ {s' : Sched}, s'.Balanced (some p) → s'.curr = some p →
      (s'.emit (.goesOn p)).Balanced s'.curr := by
    intro s' h1 h2
    rw [h2]
    exact h1.goesOn
  cases h with
  | quiet hd =>
    exact hgo (hcall (no_sem_call (.inl hd))) hp
  | file => exact hcurr (hcall (by simp)) hp
  | full hd =>
    exact hcurr (hcall (no_sem_call (.inr (.inl hd)))) hp
  | spawned hd hi =>
    exact hgo ((hcall (no_sem_call (.inr (.inl hd)))).spawn hi (some p)) hp
  | waits hd hy' =>
    have hc := hcall (no_sem_call (.inr (.inr (.inl hd))))
    exact hy'.balanced (hc.mono rfl rfl fun j => asleep_subset_self rfl rfl) fun _ => hp.symm
  | ends hd => exact hcurr (hcall (no_sem_call (.inr (.inr (.inr hd))))).ended hp
  | @endsWaking _ q _ hd hq hw hy' =>
    have hqp : q ≠ p := by
      rintro rfl
      simp at hw
    have hc := (hcall (no_sem_call (.inr (.inr (.inr hd))))).ended
    refine hy'.balanced (hc.woke fun _ j => ?_) fun _ => hp.symm
    have hpend : pending (.call p d :: s.trace) q = pending s.trace q := by simp [hqp]
    have := hg.exits hd hp hq (by simpa [hqp] using hw) j
    rwa [← hpend] at this
  | leaves =>
    have hc := hcall (by simp)
    refine (hc.silent (e := .terminated p) trivial (by simp)).mono rfl rfl fun j q hq => ?_
    rw [mem_asleep] at hq ⊢
    have hqp : q ≠ p := fun e => hq.2.2 (e ▸ rfl)
    refine ⟨hq.1, ?_, by simp⟩
    simpa [hqp] using hq.2.1
  | noSem => exact hgo (hcall (by simp)) hp
  | @gotSem v i hi =>
    have hu : (s.sem i).used = false := by simpa using List.find?_some hi
    exact hgo ((hcall (by simp)).gotSem (x := ⟨v, true, (s.sem i).head⟩) hu rfl rfl) hp
  | freed => exact hg.elim
  | badFreeSem | badSemP | badSemV | headless => exact absurd rfl (hy _)
  | @taken i hv =>
    refine hcurr (hs.semP (x := ⟨(s.sem i).val - 1, (s.sem i).used, (s.sem i).head⟩) hfl
      (hg i rfl).1 rfl rfl rfl rfl (fun _ => rfl) (fun _ => rfl) (by simp)
      (fun j _ => asleep_subset_call rfl rfl) (.inl hv)) hp
  | @blocked i _ hv hy' =>
    obtain ⟨q, hq, hready⟩ := (hg i rfl).2 hv
    have hqp : q ≠ p := fun e => hq (e ▸ hp)
    have hready' : s.status q = .ready := hready
    refine hy'.balanced (hs.queued hfl (hg i rfl).1) fun hn =>
      absurd hn (pick_ne_none (i := q) ?_)
    simp [hqp, hready']
  | @released i hv =>
    exact hcurr (hs.semV (x := ⟨(s.sem i).val + 1, (s.sem i).used, (s.sem i).head⟩) hfl
      (hg i rfl).1 rfl rfl rfl rfl (fun _ => rfl) (fun _ => rfl) (by simp)
      (fun j _ => asleep_subset_call rfl rfl) (.inl hv)) hp
  | @missed i h hv hh hw =>
    refine hcurr (hs.semV (x := ⟨(s.sem i).val + 1, (s.sem i).used, s.next p⟩) hfl
      (hg i rfl).1 rfl rfl rfl rfl (fun _ => rfl) (fun _ => rfl) (by simp)
      (fun j _ => asleep_subset_call rfl rfl) (.inr (Nat.le_succ_of_le ?_))) hp
    exact Finset.card_le_card (asleep_subset_call rfl rfl)
  | @wakes i h _ hv hh hw hy' =>
    exact hy'.balanced (hs.wakes (x := ⟨(s.sem i).val + 1, (s.sem i).used, s.next p⟩) hfl
      (hg i rfl).1 ((hg i rfl).2 hv h hh hw) rfl rfl) fun _ => hp.symm

/-- As long as the processor is in the part of the kernel that is described, the counters are
balanced; in any case not too many have gone through. -/
structure View.Safe (x : View) : Prop where
  passes_le : ∀ i v, .gotSem i v ∈ x.s.trace → 0 ≤ v →
    (passes i x.s.trace : ℤ) ≤ v + releases i x.s.trace
  balanced : x.mode.Live → x.s.Balanced x.s.curr

theorem View.Safe.of_balanced {x : View} (h : x.s.Balanced c) (hc : x.mode.Live → c = x.s.curr) :
    x.Safe :=
  ⟨fun _ _ hg hv => h.passes_le hg hv, fun hm => hc hm ▸ h⟩

/-- A call that ends in undefined behaviour lets nobody through. -/
theorem View.Safe.fault {m : Mode} {d : Call} {f : Fault} (h : View.Safe ⟨m, s⟩)
    (ht : s'.trace = .call p d :: s.trace) : View.Safe ⟨.fault f, s'⟩ := by
  refine ⟨fun i v hg hv => ?_, fun hl => hl.elim⟩
  simp only [ht] at hg ⊢
  have := h.passes_le i v (by simpa using hg) hv
  have hpass : passes i (.call p d :: s.trace) = passes i s.trace := rfl
  rw [hpass, releases_call]
  simp only at this
  push_cast
  split_ifs <;> omega

theorem Seeks.safe {m : Mode} {y : View} (h : Seeks s m y) (hs : s.Balanced s.curr) : y.Safe :=
  .of_balanced (h.balanced hs fun _ => rfl) fun _ => rfl

theorem Moves.safe {x y : View} {c : Option Call} (h : Moves x c y) (hd : x.Disciplined)
    (hx : x.Safe) (hg : blocksAndWakes x c) : y.Safe := by
  cases h with
  | @served m s p d y hm hp hy =>
    have hfl : ∀ j, p ∉ inFlight j s.trace := by
      intro j hj
      rw [mem_inFlight] at hj
      rcases hm with rfl | ⟨rfl, -⟩
      · exact Option.some_ne_none _ (hj.symm.trans (hd.user rfl p hp))
      · simpa using hj.symm.trans (hd.exiting rfl p hp)
    have hlive : m.Live := by
      rcases hm with rfl | ⟨rfl, -⟩ <;> trivial
    have hb : s.Balanced (some p) := by
      rw [← hp]
      exact hx.balanced hlive
    by_cases hf : ∃ f, y.mode = .fault f
    · obtain ⟨f, hf⟩ := hf
      obtain ⟨m', s'⟩ := y
      cases hf
      exact hx.fault (hy.fault_trace rfl)
    · exact .of_balanced (hy.balanced hb hp hfl hg fun f h => hf ⟨f, h⟩) fun _ => rfl
  | @finished s p hp =>
    have hb := hx.balanced trivial
    rw [show s.curr = some p from hp] at hb
    exact .of_balanced hb.goesOn fun _ => hp.symm
  | idle hm =>
    rcases hm with rfl | ⟨rfl, rfl⟩
    · exact hx
    · exact .of_balanced (hx.balanced trivial) fun _ => rfl
  | sought hm hy => exact hy.safe (hx.balanced hm)
  | created hi => exact .of_balanced ((hx.balanced trivial).spawn hi _) fun _ => rfl
  | failed => exact ⟨hx.passes_le, fun hl => hl.elim⟩

/-! ## The result -/

/-- **If blocked processes sleep and only `do_sem_v` wakes them, a semaphore obtained with `v` units
lets at most `v` plus the number of its releases through.** -/
theorem semaphore_safety {m : Machine} (h : Reachable blocksAndWakes m) (i : SemId) (v : ℤ)
    (hv : 0 ≤ v) (hg : .gotSem i v ∈ m.k.trace) :
    (passes i m.k.trace : ℤ) ≤ v + releases i m.k.trace := by
  have hs : m.view.Safe := by
    refine h.view₂ (J := View.Disciplined) (I := View.Safe) (fun _ => Reachable.disciplined)
      ⟨fun i v hg => absurd hg (by simp [Sched.start]), fun _ => ⟨?_, ?_, ?_⟩⟩ ?_
    · intro i _
      exact ⟨rfl, rfl, by ext p; simp [Sched.start, pending], by simp [Sched.start]⟩
    · intro i v hg
      simp [Sched.start] at hg
    · intro i v hg
      simp [Sched.start] at hg
    · exact fun x c y _ hd hx hg hy => hy.safe hd hx hg
  exact hs.passes_le i v hg hv

/-- Two programs contend for a mutex; the second one goes through when the first one releases it. -/
theorem semaphore_safety_mutex : ∃ m : Machine, passes 0 m.k.trace = 2 ∧
    (passes 0 m.k.trace : ℤ) ≤ 1 + releases 0 m.k.trace := by
  obtain ⟨m, hm, hg, hP⟩ := RunsTo.of_exec (G := Guard.on blocksAndWakes)
    (P := fun m => .gotSem 0 1 ∈ m.k.trace ∧ passes 0 m.k.trace = 2)
    [.load, .load, .schedule, .sys 20 1, .sys 21 0, .ret, .tick, .tick, .sys 21 0, .sys 22 0]
    (by decide +kernel) (by decide +kernel)
  exact ⟨m, hP, semaphore_safety hm 0 1 (by decide) hg⟩

/-- The only program goes through a semaphore without units that nobody has released. -/
theorem semaphore_alone : ∃ m : Machine, Reachable anyStep m ∧ .gotSem 0 0 ∈ m.k.trace ∧
    ¬ (passes 0 m.k.trace : ℤ) ≤ 0 + releases 0 m.k.trace := by
  obtain ⟨m, hm, hg, hP⟩ := RunsTo.of_exec (G := anyStep.on)
    (P := fun m => .gotSem 0 0 ∈ m.k.trace ∧ ¬ (passes 0 m.k.trace : ℤ) ≤ 0 + releases 0 m.k.trace)
    [.load, .schedule, .sys 20 0, .sys 21 0, .ret] (by decide +kernel) (by decide +kernel)
  exact ⟨m, hm, hg, hP⟩

end AdvancedOS
