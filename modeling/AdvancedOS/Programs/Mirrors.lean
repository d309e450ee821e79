import AdvancedOS.Lib.Counting
import AdvancedOS.Programs.Answers

/-!
# The processes of a program in the kernel's tables

`Mirrors s loc a`: the scheduling state `s` and the locations `loc` mirror the processes and the
semaphores of `a`. An active process is ready or running; one that sleeps on a semaphore waits, is
alone in the queue, and the value is `-1`; the link field of every process is empty.

* `Instr.op`, `Program.op`: the program as processes that share counting semaphores;
* `Mirrors.goTo`, `Mirrors.setStanding`, `Mirrors.sleep`, …: what a change of the tables is for the
  processes that they mirror;
* `Seeks.mirrors`: whoever the scheduler chooses is awake.
-/

namespace AdvancedOS

open Function (update update_self update_of_ne update_eq_self)

open Counting (Standing Proc State)

variable {L V : Type}

/-! ## The program -/

/-- The instruction for a process that shares counting semaphores. -/
def Instr.op : Instr L V → Counting.Op L V
  | .act f => .act f
  | .call c next child =>
    match c with
    | .logo | .busy | .unknown | .getPid | .threadSelf => .ask fun l => ∃ a, l = next a
    | .getSem v => if 0 ≤ v then .get v.toNat fun o => next (semWord o) else .wrong
    | .semP id => if 0 ≤ id then .wait id.toNat (next 0) else .wrong
    | .semV id => if 0 ≤ id then .signal id.toNat (next 0) else .wrong
    | .fork => .spawn (fun l => ∃ a, a ≠ 0 ∧ a ≠ -1 ∧ l = next a) (next (-1)) child
    | .threadCreate .. => .spawn (fun l => l = next 0) (next (-1)) child
    | .wait | .threadJoin _ => .pause (next 0)
    | .exit | .threadExit => .leave (next 0)
    | .processReturn => .retire (next 0)
    | .freeSem _ | .file _ => .wrong

def Program.op (P : Program L V) (l : L) : Counting.Op L V := (P.code l).op

/-! ## The tables -/

/-- The statuses that a process of this standing may have. -/
def Allows : Standing → Status → Prop
  | .active, t => t = .ready ∨ t = .running
  | .asleep _, t | .aside, t => t = .waiting
  | .retired, t => t ≠ .new

/-- The semaphore `i` in the table is `x` and has `n` units left. -/
def MirrorsSem (a : State L V) (i : SemId) (n : ℕ) (x : Semaphore) : Prop :=
  a.Unslept i ∧ x.val = n ∧ x.head = none ∨
  ∃ (h : Slot) (q : Proc L), a.procs[(h : ℕ)]? = some q ∧ q.standing = .asleep i ∧
    (∀ (j : ℕ) (r : Proc L), a.procs[j]? = some r → r.standing = .asleep i → j = h) ∧
    n = 0 ∧ x.val = -1 ∧ x.head = some h

structure Mirrors (s : Sched) (loc : Slot → L) (a : State L V) : Prop where
  new : ∀ i : Slot, s.status i = .new ↔ a.procs.length ≤ i
  procs_le : a.procs.length ≤ MAX_PROCESS
  loc : ∀ (i : Slot) q, a.procs[(i : ℕ)]? = some q → loc i = q.loc
  fits : ∀ (i : Slot) q, a.procs[(i : ℕ)]? = some q → Allows q.standing (s.status i)
  parent : ∀ (i : Slot) q, a.procs[(i : ℕ)]? = some q → q.parent = (s.parent i).map Fin.val
  next : ∀ i, s.next i = none
  asleep : ∀ (i : ℕ) (q : Proc L) j, a.procs[i]? = some q → q.standing = .asleep j →
    j < a.sems.length
  sems_le : a.sems.length ≤ N_SEMAPHORE
  used : ∀ i : SemId, (s.sem i).used = true ↔ i < a.sems.length
  fresh : ∀ i : SemId, a.sems.length ≤ i → (s.sem i).head = none
  sem : ∀ (i : SemId) n, a.sems[(i : ℕ)]? = some n → MirrorsSem a i n (s.sem i)

/-- The current process is awake. -/
def Current (s : Sched) (a : State L V) : Prop :=
  ∀ (p : Slot) q, s.curr = some p → a.procs[(p : ℕ)]? = some q → q.Awake

variable {s : Sched} {loc : Slot → L} {a : State L V} {p h : Slot} {q : Proc L} {σ : Standing}
  {t : Status}

theorem Allows.ne_new (hf : Allows σ t) : t ≠ .new := by
  cases σ with
  | active => rcases hf with rfl | rfl <;> simp
  | asleep | aside => cases hf; simp
  | retired => exact hf

theorem Allows.awake {q : Proc L} (hf : Allows q.standing t) (hst : t ≠ .waiting) : q.Awake := by
  unfold Proc.Awake
  cases hq : q.standing with
  | active => exact .inl rfl
  | retired => exact .inr rfl
  | asleep | aside =>
    rw [hq] at hf
    exact absurd hf hst

/-- A switch touches the statuses of ready and running processes only. -/
theorem Allows.promote {i j : Slot} (hf : Allows σ (s.status i)) (hj : pick s.status = some j) :
    Allows σ (promote j s.status i) := by
  cases σ with
  | active =>
    by_cases hi : i = j
    · exact .inr (promote_eq_running.mpr hi)
    · rw [promote_of_ne hi]
      rcases hf with hf | hf <;> simp [Allows, hf]
  | asleep | aside => exact (promote_pick hj (by decide) (by decide)).mpr hf
  | retired => exact fun hn => hf ((promote_pick hj (by decide) (by decide)).mp hn)

namespace Mirrors

theorem getElem?_of_ne_new (hs : Mirrors s loc a) (hp : s.status p ≠ .new) :
    ∃ q, a.procs[(p : ℕ)]? = some q := by
  have hlt : (p : ℕ) < a.procs.length := by
    by_contra hc
    exact hp ((hs.new p).mpr (by omega))
  exact ⟨_, List.getElem?_eq_getElem hlt⟩

theorem frame (hs : Mirrors s loc a) (c : Option Slot) (tr : List Event) :
    Mirrors { s with curr := c, trace := tr } loc a :=
  ⟨hs.new, hs.procs_le, hs.loc, hs.fits, hs.parent, hs.next, hs.asleep, hs.sems_le, hs.used,
    hs.fresh, hs.sem⟩

theorem emit (hs : Mirrors s loc a) (e : Event) : Mirrors (s.emit e) loc a := hs.frame _ _

theorem switchTo {j : Slot} (hs : Mirrors s loc a) (hj : pick s.status = some j) :
    Mirrors (s.switchTo j) loc a where
  new i := (promote_pick hj (by decide) (by decide)).trans (hs.new i)
  procs_le := hs.procs_le
  loc := hs.loc
  fits i q hq := (hs.fits i q hq).promote hj
  parent := hs.parent
  next := hs.next
  asleep := hs.asleep
  sems_le := hs.sems_le
  used := hs.used
  fresh := hs.fresh
  sem := hs.sem

end Mirrors

/-! ## Changes of one process -/

theorem lt_of_getElem? {α : Type} {l : List α} {i : ℕ} {x : α} (h : l[i]? = some x) :
    i < l.length := (List.getElem?_eq_some_iff.mp h).1

theorem MirrorsSem.put {i : SemId} {n : ℕ} {x : Semaphore} {q' : Proc L}
    (hx : MirrorsSem a i n x) (hp : a.procs[(p : ℕ)]? = some q)
    (hq : q.standing ≠ .asleep i) (hq' : q'.standing ≠ .asleep i) :
    MirrorsSem (a.put p q') i n x := by
  rcases hx with ⟨hu, hv, hh⟩ | ⟨h, r, hr, hrs, huniq, hx⟩
  · refine .inl ⟨fun j r hj => ?_, hv, hh⟩
    rcases State.getElem?_put hj with ⟨-, rfl⟩ | ⟨-, hj⟩
    · exact hq'
    · exact hu j r hj
  · have hne : (h : ℕ) ≠ p := by
      intro he
      rw [he, hp] at hr
      exact hq (Option.some.inj hr ▸ hrs)
    refine .inr ⟨h, r, ?_, hrs, fun j r' hj hjs => ?_, hx⟩
    · rwa [State.put, List.getElem?_set_ne hne.symm]
    · rcases State.getElem?_put hj with ⟨-, rfl⟩ | ⟨-, hj⟩
      · exact absurd hjs hq'
      · exact huniq j r' hj hjs

namespace Mirrors

theorem put_new (hs : Mirrors s loc a) (hp : a.procs[(p : ℕ)]? = some q) (hst : t ≠ .new)
    (q' : Proc L) (i : Slot) : update s.status p t i = .new ↔ (a.put p q').procs.length ≤ i := by
  rw [State.put, List.length_set, ← hs.new i]
  refine update_eq_new ?_ hst
  rw [ne_eq, hs.new p]
  exact (lt_of_getElem? hp).not_ge

theorem put_loc (hs : Mirrors s loc a) (l : L) {i : Slot} {r : Proc L}
    (hi : (a.put p { q with loc := l, standing := σ }).procs[(i : ℕ)]? = some r) :
    update loc p l i = r.loc := by
  rcases State.getElem?_put hi with ⟨he, rfl⟩ | ⟨hne, hi⟩
  · rw [Fin.ext he, update_self]
  · rw [update_of_ne fun he => hne (congrArg Fin.val he)]
    exact hs.loc i r hi

theorem put_fits (hs : Mirrors s loc a) (hst : Allows σ t) {l : L} {i : Slot} {r : Proc L}
    (hi : (a.put p { q with loc := l, standing := σ }).procs[(i : ℕ)]? = some r) :
    Allows r.standing (update s.status p t i) := by
  rcases State.getElem?_put hi with ⟨he, rfl⟩ | ⟨hne, hi⟩
  · rw [Fin.ext he, update_self]
    exact hst
  · rw [update_of_ne fun he => hne (congrArg Fin.val he)]
    exact hs.fits i r hi

theorem put_parent (hs : Mirrors s loc a) (hp : a.procs[(p : ℕ)]? = some q) {l : L} {i : Slot}
    {r : Proc L}
    (hi : (a.put p { q with loc := l, standing := σ }).procs[(i : ℕ)]? = some r) :
    r.parent = (s.parent i).map Fin.val := by
  rcases State.getElem?_put hi with ⟨he, rfl⟩ | ⟨-, hi⟩
  · rw [Fin.ext he]
    exact hs.parent p q hp
  · exact hs.parent i r hi

theorem setStanding (hs : Mirrors s loc a) (hp : a.procs[(p : ℕ)]? = some q)
    (hq : ∀ i, q.standing ≠ .asleep i) (hσ : ∀ i, σ ≠ .asleep i) (hst : Allows σ t) (l : L) :
    Mirrors (s.setStatus p t) (update loc p l)
      (a.put p { q with loc := l, standing := σ }) where
  new := hs.put_new hp hst.ne_new _
  procs_le := by
    rw [State.put, List.length_set]
    exact hs.procs_le
  loc _ _ hi := hs.put_loc l hi
  fits _ _ hi := hs.put_fits hst hi
  parent _ _ hi := hs.put_parent hp hi
  next := hs.next
  asleep i r j hi hj := by
    rcases State.getElem?_put hi with ⟨-, rfl⟩ | ⟨-, hi⟩
    · exact absurd hj (hσ j)
    · exact hs.asleep i r j hi hj
  sems_le := hs.sems_le
  used := hs.used
  fresh := hs.fresh
  sem i n hn := (hs.sem i n hn).put hp (hq i) (hσ i)

theorem setStanding' (hs : Mirrors s loc a) (hp : a.procs[(p : ℕ)]? = some q)
    (hq : ∀ i, q.standing ≠ .asleep i) (hσ : ∀ i, σ ≠ .asleep i) (hst : Allows σ t) :
    Mirrors (s.setStatus p t) loc (a.put p { q with standing := σ }) := by
  have h := hs.setStanding hp hq hσ hst q.loc
  have hl : update loc p q.loc = loc := by rw [← hs.loc p q hp, update_eq_self]
  rwa [hl] at h

theorem goTo (hs : Mirrors s loc a) (hp : a.procs[(p : ℕ)]? = some q)
    (hq : ∀ i, q.standing ≠ .asleep i) (l : L) :
    Mirrors s (update loc p l) (a.put p (q.to l)) := by
  have := hs.setStanding hp hq hq (hs.fits p q hp) l
  rwa [Sched.setStatus, update_eq_self] at this

theorem sleep (hs : Mirrors s loc a) (hp : a.procs[(p : ℕ)]? = some q)
    (hq : ∀ i, q.standing ≠ .asleep i) {i : SemId} (hi : a.sems[(i : ℕ)]? = some 0)
    (hu : a.Unslept i) (l : L) :
    Mirrors (s.queued p i) (update loc p l)
      (a.put p { q with loc := l, standing := .asleep i }) := by
  obtain ⟨hv, hh⟩ : (s.sem i).val = 0 ∧ (s.sem i).head = none := by
    rcases hs.sem i 0 hi with ⟨-, hv, hh⟩ | ⟨h, r, hr, hrs, -⟩
    · exact ⟨hv, hh⟩
    · exact absurd hrs (hu h r hr)
  refine ⟨hs.put_new hp (by decide) _, by simpa [State.put] using hs.procs_le,
    fun j r hj => hs.put_loc l hj,
    fun j r hj => hs.put_fits (show Allows (.asleep i) .waiting from rfl) hj,
    fun j r hj => hs.put_parent hp hj, ?_, ?_, hs.sems_le, ?_, ?_, ?_⟩
  · intro j
    rw [Sched.queued_next, hh]
    by_cases hj : j = p
    · rw [hj, update_self]
    · rw [update_of_ne hj]
      exact hs.next j
  · intro j r k hj hk
    rcases State.getElem?_put hj with ⟨-, rfl⟩ | ⟨-, hj⟩
    · cases hk
      exact lt_of_getElem? hi
    · exact hs.asleep j r k hj hk
  · intro j
    rw [Sched.queued_sem]
    by_cases hj : j = i
    · rw [hj, update_self]
      exact hs.used i
    · rw [update_of_ne hj]
      exact hs.used j
  · intro j hj
    rw [Sched.queued_sem, update_of_ne fun he => ?_]
    · exact hs.fresh j hj
    · rw [he] at hj
      exact absurd (lt_of_getElem? hi) hj.not_gt
  · intro j n hn
    rw [Sched.queued_sem]
    by_cases hj : j = i
    · subst hj
      cases hi.symm.trans hn
      rw [update_self]
      refine .inr ⟨p, _, State.put_procs_self hp, rfl, fun k r hk hks => ?_, rfl, by simp [hv], rfl⟩
      rcases State.getElem?_put hk with ⟨he, -⟩ | ⟨-, hk⟩
      · exact he
      · exact absurd hks (hu k r hk)
    · rw [update_of_ne hj]
      refine (hs.sem j n hn).put hp (hq j) fun he => hj ?_
      exact Fin.ext (Standing.asleep.inj he).symm

theorem wake (hs : Mirrors s loc a) {r : Proc L} (hr : a.procs[(h : ℕ)]? = some r) {i : SemId}
    (hi : r.standing = .asleep i) (hlt : (i : ℕ) < a.sems.length) :
    (s.sem i).val = -1 ∧ (s.sem i).head = some h ∧
    Mirrors ((s.setSem i { s.sem i with val := (s.sem i).val + 1, head := none }).woke h) loc
      (a.put h { r with standing := .active }) := by
  obtain ⟨huniq, hn, hv, hh⟩ : (∀ (j : ℕ) (r : Proc L), a.procs[j]? = some r →
      r.standing = .asleep i → j = h) ∧ a.sems[(i : ℕ)]? = some 0 ∧ (s.sem i).val = -1 ∧
        (s.sem i).head = some h := by
    rcases hs.sem i _ (List.getElem?_eq_getElem hlt) with ⟨hu, -⟩ | ⟨h', r', -, -, huniq, hn, hv, hh⟩
    · exact absurd hi (hu h r hr)
    · obtain rfl : h = h' := Fin.ext (huniq h r hr hi)
      exact ⟨huniq, by rw [List.getElem?_eq_getElem hlt, hn], hv, hh⟩
  refine ⟨hv, hh, ?_⟩
  refine ⟨hs.put_new hr (by decide) _, by simpa [State.put] using hs.procs_le, fun j r' hj => ?_,
    fun j r' hj => hs.put_fits (show Allows .active .ready from .inl rfl) hj,
    fun j r' hj => hs.put_parent hr hj, hs.next, ?_, hs.sems_le, ?_, ?_, ?_⟩
  · have := hs.put_loc r.loc hj
    rwa [← hs.loc h r hr, update_eq_self] at this
  · intro j r' k hj hk
    rcases State.getElem?_put hj with ⟨-, rfl⟩ | ⟨-, hj⟩
    · cases hk
    · exact hs.asleep j r' k hj hk
  · intro j
    rw [Sched.woke_sem, Sched.setSem_sem]
    by_cases hj : j = i
    · rw [hj, update_self]
      exact hs.used i
    · rw [update_of_ne hj]
      exact hs.used j
  · intro j hj
    rw [Sched.woke_sem, Sched.setSem_sem]
    by_cases hji : j = i
    · rw [hji, update_self]
    · rw [update_of_ne hji]
      exact hs.fresh j hj
  · intro j n hn'
    rw [Sched.woke_sem, Sched.setSem_sem]
    by_cases hj : j = i
    · subst hj
      cases hn.symm.trans hn'
      rw [update_self]
      refine .inl ⟨fun k r' hk hks => ?_, by simp [hv], rfl⟩
      rcases State.getElem?_put hk with ⟨-, rfl⟩ | ⟨hne, hk⟩
      · cases hks
      · exact hne (huniq k r' hk hks)
    · rw [update_of_ne hj]
      refine (hs.sem j n hn').put hr (fun he => hj ?_) (by simp)
      exact Fin.ext (Standing.asleep.inj (he.symm.trans hi))

/-! ## Changes of the semaphores and new processes -/

theorem units (hs : Mirrors s loc a) {i : SemId} (hlt : (i : ℕ) < a.sems.length)
    (hu : a.Unslept i) (n : ℕ) :
    Mirrors (s.setSem i { s.sem i with val := n }) loc (a.units i n) := by
  have hhead : (s.sem i).head = none := by
    rcases hs.sem i _ (List.getElem?_eq_getElem hlt) with ⟨-, -, hh⟩ | ⟨h, r, hr, hrs, -⟩
    · exact hh
    · exact absurd hrs (hu h r hr)
  have hlen : (a.units i n).sems.length = a.sems.length := List.length_set
  refine ⟨hs.new, hs.procs_le, hs.loc, hs.fits, hs.parent, hs.next, ?_, ?_, fun j => ?_,
    fun j hj => ?_, fun j m hm => ?_⟩
  · rw [hlen]
    exact hs.asleep
  · rw [hlen]
    exact hs.sems_le
  · rw [hlen, Sched.setSem_sem]
    by_cases hj : j = i
    · rw [hj, update_self]
      exact hs.used i
    · rw [update_of_ne hj]
      exact hs.used j
  · rw [hlen] at hj
    rw [Sched.setSem_sem, update_of_ne fun he => ?_]
    · exact hs.fresh j hj
    · rw [he] at hj
      exact absurd hlt hj.not_gt
  · rw [Sched.setSem_sem]
    by_cases hj : j = i
    · subst hj
      rw [State.units, List.getElem?_set_self hlt] at hm
      cases hm
      rw [update_self]
      exact .inl ⟨hu, rfl, hhead⟩
    · rw [State.units, List.getElem?_set_ne fun he => hj (Fin.ext he.symm)] at hm
      rw [update_of_ne hj]
      exact hs.sem j m hm

theorem get (hs : Mirrors s loc a) {i : SemId} (hi : (i : ℕ) = a.sems.length) (n : ℕ) :
    Mirrors (s.setSem i { s.sem i with val := n, used := true }) loc
      { a with sems := a.sems ++ [n] } := by
  have hlen : ∀ j : SemId, (j : ℕ) < (a.sems ++ [n]).length ↔ j = i ∨ (j : ℕ) < a.sems.length := by
    intro j
    rw [List.length_append, List.length_singleton, Fin.ext_iff]
    omega
  refine ⟨hs.new, hs.procs_le, hs.loc, hs.fits, hs.parent, hs.next, fun j q k hj hk => ?_, ?_,
    fun j => ?_, fun j hj => ?_, fun j m hm => ?_⟩
  · have := hs.asleep j q k hj hk
    rw [List.length_append]
    omega
  · have := i.isLt
    rw [List.length_append, List.length_singleton]
    omega
  · rw [hlen, Sched.setSem_sem]
    by_cases hj : j = i
    · simp [hj]
    · rw [update_of_ne hj, hs.used j]
      simp [hj]
  · have hj' : ¬ (j = i ∨ (j : ℕ) < a.sems.length) := by
      rw [← hlen]
      exact hj.not_gt
    rw [Sched.setSem_sem, update_of_ne fun he => hj' (.inl he)]
    exact hs.fresh j (by omega)
  · rw [Sched.setSem_sem]
    by_cases hj : j = i
    · subst hj
      rw [List.getElem?_append_right hi.ge, hi, Nat.sub_self] at hm
      cases hm
      rw [update_self]
      exact .inl ⟨fun k r hk hks => absurd (hs.asleep k r _ hk hks) (by omega), rfl,
        hs.fresh j hi.ge⟩
    · have hlt := ((hlen j).mp (lt_of_getElem? hm)).resolve_left hj
      rw [List.getElem?_append_left hlt] at hm
      rw [update_of_ne hj]
      exact hs.sem j m hm

theorem spawn (hs : Mirrors s loc a) {i : Slot} (hi : (i : ℕ) = a.procs.length) (child : L) :
    Mirrors (s.spawn i (some p)) (update loc i child)
      { a with procs := a.procs ++ [{ loc := child, parent := some p }] } := by
  -- a process in the longer list is the new one or an old one
  have hget : ∀ {j : ℕ} {r : Proc L}, (a.procs ++ [{ loc := child, parent := some p }])[j]? = some r →
      j = i ∧ r = { loc := child, parent := some p } ∨ j ≠ i ∧ a.procs[j]? = some r := by
    intro j r hj
    by_cases hlt : j < a.procs.length
    · rw [List.getElem?_append_left hlt] at hj
      exact .inr ⟨by omega, hj⟩
    · have : j = i := by
        have := lt_of_getElem? hj
        rw [List.length_append, List.length_singleton] at this
        omega
      rw [this, hi, List.getElem?_append_right le_rfl, Nat.sub_self] at hj
      exact .inl ⟨this, (Option.some.inj hj).symm⟩
  refine ⟨fun j => ?_, ?_, fun j r hj => ?_, fun j r hj => ?_, fun j r hj => ?_, hs.next,
    fun j r k hj hk => ?_, hs.sems_le, hs.used, hs.fresh, fun j n hn => ?_⟩
  · rw [Sched.spawn_status, List.length_append, List.length_singleton]
    by_cases hj : j = i
    · subst hj
      simp [hi]
    · have : (j : ℕ) ≠ i := fun he => hj (Fin.ext he)
      rw [update_of_ne hj, hs.new j]
      omega
  · have := i.isLt
    rw [List.length_append, List.length_singleton]
    omega
  · rcases hget hj with ⟨he, rfl⟩ | ⟨hne, hj⟩
    · rw [Fin.ext he, update_self]
    · rw [update_of_ne fun he => hne (congrArg Fin.val he)]
      exact hs.loc j r hj
  · rw [Sched.spawn_status]
    rcases hget hj with ⟨he, rfl⟩ | ⟨hne, hj⟩
    · rw [Fin.ext he, update_self]
      exact .inl rfl
    · rw [update_of_ne fun he => hne (congrArg Fin.val he)]
      exact hs.fits j r hj
  · rw [Sched.spawn_parent]
    rcases hget hj with ⟨he, rfl⟩ | ⟨hne, hj⟩
    · rw [Fin.ext he, update_self]
      rfl
    · rw [update_of_ne fun he => hne (congrArg Fin.val he)]
      exact hs.parent j r hj
  · rcases hget hj with ⟨-, rfl⟩ | ⟨-, hj⟩
    · cases hk
    · exact hs.asleep j r k hj hk
  · rcases hs.sem j n hn with ⟨hu, hx⟩ | ⟨h, r, hr, hrs, huniq, hx⟩
    · refine .inl ⟨fun k r hk => ?_, hx⟩
      rcases hget hk with ⟨-, rfl⟩ | ⟨-, hk⟩
      · simp
      · exact hu k r hk
    · refine .inr ⟨h, r, ?_, hrs, fun k r' hk hks => ?_, hx⟩
      · rw [List.getElem?_append_left (lt_of_getElem? hr)]
        exact hr
      · rcases hget hk with ⟨-, rfl⟩ | ⟨-, hk⟩
        · cases hks
        · exact huniq k r' hk hks

end Mirrors

theorem Seeks.mirrors {m : Mode} {y : View} (h : Seeks s m y) (hs : Mirrors s loc a)
    (hc : pick s.status = none → Current s a) : Mirrors y.s loc a ∧ Current y.s a := by
  have hawake : ∀ {j : Slot}, pick s.status = some j → Current (s.switchTo j) a := by
    intro j hj p q hp hq
    cases hp
    exact (hs.fits j q hq).awake (pick_ne hj (by decide) (by decide))
  cases h with
  | nobody hn => exact ⟨hs.emit _, hc hn⟩
  | user hj => exact ⟨(hs.switchTo hj).emit _, hawake hj⟩
  | lost hj => exact ⟨hs.switchTo hj, hawake hj⟩

end AdvancedOS
