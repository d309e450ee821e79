import Mathlib.Algebra.BigOperators.Group.List.Basic
import Mathlib.Algebra.GroupWithZero.Nat
import Mathlib.Logic.Relation
import Mathlib.Tactic.SplitIfs

/-!
# Processes that share counting semaphores

Processes run over one shared memory, each at a location of its own, and meet at counting
semaphores. One process takes one step at a time, and any process that is awake may be the next.
Processes and semaphores are numbered in the order in which they are created.

* `Op`: what a process does next; `Proc`, `State`: the processes, the units that each semaphore has
  left, and the memory;
* `Does`, `Step`: what a process that is awake may do; `Reachable`;
* `Orderly`: nobody sleeps on a semaphore that somebody sleeps on already, or while nobody else can
  act, and nobody leaves while the creator sleeps;
* `Reachable.invariant`: **the invariant rule**;
* `Reachable.drained`: a semaphore that somebody sleeps on has no units left;
* `held`: what a process holds.
-/

namespace Counting

/-- Whether a process goes on. -/
inductive Standing where
  | active
  /-- In the queue of the semaphore `s`. -/
  | asleep (s : ℕ)
  /-- It waits for a process that it has created to leave. -/
  | aside
  /-- It may still act, but nothing relies on it. -/
  | retired
  deriving DecidableEq

/-- What a process does next: `L` are the locations, `V` is the shared memory. -/
inductive Op (L V : Type*) where
  | act (f : V → L × V)
  /-- It goes on at one of these locations. -/
  | ask (goes : L → Prop)
  /-- It creates a semaphore with `n` units, if there may be another one. -/
  | get (n : ℕ) (next : Option ℕ → L)
  | wait (s : ℕ) (next : L)
  | signal (s : ℕ) (next : L)
  /-- It creates a process at `child`, if there may be another one. -/
  | spawn (goes : L → Prop) (fails child : L)
  /-- It waits for a process that it has created to leave. -/
  | pause (next : L)
  | retire (next : L)
  /-- It is retired, and its creator goes on if that one waits. -/
  | leave (next : L)
  | wrong

structure Proc (L : Type*) where
  loc : L
  standing : Standing := .active
  /-- Its creator. -/
  parent : Option ℕ := none

structure State (L V : Type*) where
  procs : List (Proc L)
  /-- The units that are left. -/
  sems : List ℕ
  shared : V

variable {L V : Type*} {N M : ℕ} {prog : L → Op L V} {a a' a₀ : State L V} {p : ℕ} {q : Proc L}

/-- The process can act. -/
def Proc.Awake (q : Proc L) : Prop := q.standing = .active ∨ q.standing = .retired

instance : DecidablePred (Proc.Awake (L := L)) := fun _ => inferInstanceAs (Decidable (_ ∨ _))

/-- The process goes on at `l`. -/
def Proc.to (q : Proc L) (l : L) : Proc L := { q with loc := l }

namespace State

/-- `q` is what becomes of the process `p`. -/
def put (a : State L V) (p : ℕ) (q : Proc L) : State L V := { a with procs := a.procs.set p q }

/-- `n` units of `s` are left. -/
def units (a : State L V) (s n : ℕ) : State L V := { a with sems := a.sems.set s n }

/-- The process `p` goes on if it waits. -/
def awaken (a : State L V) (p : ℕ) : State L V :=
  match a.procs[p]? with
  | some q => if q.standing = .aside then a.put p { q with standing := .active } else a
  | none => a

/-- No other process than `p` is active. -/
def Alone (a : State L V) (p : ℕ) : Prop :=
  ∀ i r, i ≠ p → a.procs[i]? = some r → r.standing ≠ .active

/-- No process sleeps on `s`. -/
def Unslept (a : State L V) (s : ℕ) : Prop :=
  ∀ (i : ℕ) (r : Proc L), a.procs[i]? = some r → r.standing ≠ .asleep s

end State

/-- What the process `p`, which is `q`, makes of `a` by the operation. There are at most `N`
processes and `M` semaphores. -/
def Does (N M : ℕ) (a : State L V) (p : ℕ) (q : Proc L) (a' : State L V) : Op L V → Prop
  | .act f => a' = { a.put p (q.to (f a.shared).1) with shared := (f a.shared).2 }
  | .ask goes => ∃ l, goes l ∧ a' = a.put p (q.to l)
  | .get n next =>
    a.sems.length < M ∧ a' = { a.put p (q.to (next (some a.sems.length))) with
      sems := a.sems ++ [n] } ∨
    M ≤ a.sems.length ∧ a' = a.put p (q.to (next none))
  | .wait s l =>
    (∃ n, a.sems[s]? = some (n + 1) ∧ a' = (a.put p (q.to l)).units s n) ∨
    a.sems[s]? = some 0 ∧ a' = a.put p { q with loc := l, standing := .asleep s }
  | .signal s l =>
    -- the unit goes to the process that sleeps
    (∃ i r, a.procs[i]? = some r ∧ r.standing = .asleep s ∧
      a' = (a.put p (q.to l)).put i { r with standing := .active }) ∨
    a.Unslept s ∧ ∃ n, a.sems[s]? = some n ∧ a' = (a.put p (q.to l)).units s (n + 1)
  | .spawn goes fails child =>
    (a.procs.length < N ∧ ∃ l, goes l ∧ a' =
      { a.put p (q.to l) with
        procs := (a.put p (q.to l)).procs ++ [{ loc := child, parent := some p }] }) ∨
    N ≤ a.procs.length ∧ a' = a.put p (q.to fails)
  | .pause l =>
    a' = a.put p { q with loc := l, standing := .aside } ∨
    a.Alone p ∧ a' = a.put p { q with loc := l, standing := .retired }
  | .retire l => a' = a.put p { q with loc := l, standing := .retired }
  | .leave l =>
    a' = (match q.parent with
      | some j => (a.put p { q with loc := l, standing := .retired }).awaken j
      | none => a.put p { q with loc := l, standing := .retired })
  | .wrong => False

/-- A process that is awake takes a step. -/
def Step (N M : ℕ) (prog : L → Op L V) (a a' : State L V) : Prop :=
  ∃ p q, a.procs[p]? = some q ∧ q.Awake ∧ Does N M a p q a' (prog q.loc)

/-- `a` is reached from one process at `l` with the memory `v`. -/
def Reachable (N M : ℕ) (prog : L → Op L V) (l : L) (v : V) (a : State L V) : Prop :=
  Relation.ReflTransGen (Step N M prog) ⟨[{ loc := l }], [], v⟩ a

/-! ## Order -/

/-- The operation of `p`, which is `q`, uses no semaphore that was not created, makes nobody the
second one to sleep on a semaphore or the last one that is active, and does not leave a creator
asleep. -/
def Proper (a : State L V) (p : ℕ) (q : Proc L) : Op L V → Prop
  | .wait s _ => s < a.sems.length ∧ (a.sems[s]? = some 0 → a.Unslept s ∧ ¬ a.Alone p)
  | .signal s _ => s < a.sems.length
  | .leave _ => ∀ j r, q.parent = some j → a.procs[j]? = some r → ∀ s, r.standing ≠ .asleep s
  | .wrong => False
  | _ => True

/-- Whoever acts next, the operation is proper. -/
def Orderly (prog : L → Op L V) (a : State L V) : Prop :=
  ∀ p q, a.procs[p]? = some q → q.Awake → Proper a p q (prog q.loc)

/-! ## Processes -/

theorem Proc.Awake.not_asleep (hq : q.Awake) (i : ℕ) : q.standing ≠ .asleep i := by
  rcases hq with hq | hq <;> simp [hq]

namespace State

theorem put_self (hp : a.procs[p]? = some q) : a.put p q = a := by
  obtain ⟨hlt, rfl⟩ := List.getElem?_eq_some_iff.mp hp
  rw [put, List.set_getElem_self]

theorem getElem?_put {q' r : Proc L} {i : ℕ} (hi : (a.put p q').procs[i]? = some r) :
    i = p ∧ r = q' ∨ i ≠ p ∧ a.procs[i]? = some r := by
  simp only [put, List.getElem?_set] at hi
  split_ifs at hi with h1 h2
  · exact .inl ⟨h1.symm, (Option.some.inj hi).symm⟩
  · exact .inr ⟨fun h => h1 h.symm, hi⟩

theorem put_procs_self {q' : Proc L} (hp : a.procs[p]? = some q) :
    (a.put p q').procs[p]? = some q' := by
  simp [put, (List.getElem?_eq_some_iff.mp hp).1]

theorem awaken_of_ne {j : ℕ} (hj : ∀ r, a.procs[j]? = some r → r.standing ≠ .aside) :
    a.awaken j = a := by
  unfold awaken
  split
  · rename_i r hr
    rw [if_neg (hj r hr)]
  · rfl

theorem awaken_of_eq {j : ℕ} {r : Proc L} (hj : a.procs[j]? = some r) (hr : r.standing = .aside) :
    a.awaken j = a.put j { r with standing := .active } := by
  simp [awaken, hj, hr]

end State

theorem does_leave_none {l : L} (h : q.parent = none) :
    Does N M a p q (a.put p { q with loc := l, standing := .retired }) (.leave l : Op L V) := by
  obtain ⟨_, _, _⟩ := q
  cases h
  rfl

theorem does_leave_some {l : L} {j : ℕ} (h : q.parent = some j) :
    Does N M a p q ((a.put p { q with loc := l, standing := .retired }).awaken j)
      (.leave l : Op L V) := by
  obtain ⟨_, _, _⟩ := q
  cases h
  rfl

/-! ## Invariants -/

theorem Reachable.invariant {I : State L V → Prop} {l : L} {v : V}
    (h0 : I ⟨[{ loc := l }], [], v⟩)
    (hs : ∀ a p q a', I a → a.procs[p]? = some q → q.Awake → Does N M a p q a' (prog q.loc) → I a')
    (h : Reachable N M prog l v a) : I a := by
  induction h with
  | refl => exact h0
  | tail _ hstep ih =>
    obtain ⟨p, q, hp, hq, hd⟩ := hstep
    exact hs _ p q _ ih hp hq hd

/-- A semaphore that somebody sleeps on has no units left. -/
def State.Drained (a : State L V) : Prop :=
  ∀ (i : ℕ) (r : Proc L) s, a.procs[i]? = some r → r.standing = .asleep s → a.sems[s]? = some 0

namespace State.Drained

theorem put (h : a.Drained) {q' : Proc L} (hq' : ∀ s, q'.standing ≠ .asleep s) :
    (a.put p q').Drained := by
  intro i r s hi hs
  rcases getElem?_put hi with ⟨-, rfl⟩ | ⟨-, hi⟩
  · exact absurd hs (hq' s)
  · exact h i r s hi hs

theorem units (h : a.Drained) {s : ℕ} (hs : a.Unslept s) (n : ℕ) : (a.units s n).Drained := by
  intro i r j hi hj
  have hne : s ≠ j := by
    rintro rfl
    exact hs i r hi hj
  rw [State.units, List.getElem?_set_ne hne]
  exact h i r j hi hj

theorem awaken (h : a.Drained) (j : ℕ) : (a.awaken j).Drained := by
  unfold State.awaken
  split
  · split_ifs
    · exact h.put (by simp)
    · exact h
  · exact h

end State.Drained

theorem Does.drained {op : Op L V} (hd : Does N M a p q a' op) (hq : q.Awake) (h : a.Drained) :
    a'.Drained := by
  have hns := hq.not_asleep
  have hto : ∀ l, (a.put p (q.to l)).Drained := fun l => h.put hns
  cases op with
  | act f =>
    rw [show a' = _ from hd]
    exact hto _
  | ask goes =>
    obtain ⟨l, -, rfl⟩ := hd
    exact hto l
  | get n next =>
    rcases hd with ⟨-, rfl⟩ | ⟨-, rfl⟩
    · intro i r s hi hs
      have := hto _ i r s hi hs
      exact (List.getElem?_append_left (List.getElem?_eq_some_iff.mp this).1).trans this
    · exact hto _
  | wait s l =>
    rcases hd with ⟨n, hn, rfl⟩ | ⟨hn, rfl⟩
    · refine (hto l).units (fun i r hi hs => ?_) n
      have := (hto l) i r s hi hs
      rw [show (a.put p (q.to l)).sems[s]? = _ from hn] at this
      cases this
    · intro i r j hi hj
      rcases State.getElem?_put hi with ⟨-, rfl⟩ | ⟨-, hi⟩
      · cases hj
        exact hn
      · exact h i r j hi hj
  | signal s l =>
    rcases hd with ⟨i, r, -, -, rfl⟩ | ⟨hs, n, -, rfl⟩
    · exact (hto l).put (by simp)
    · refine (hto l).units (fun i r hi hr => ?_) (n + 1)
      rcases State.getElem?_put hi with ⟨-, rfl⟩ | ⟨-, hi⟩
      · exact hns s hr
      · exact hs i r hi hr
  | spawn goes fails child =>
    rcases hd with ⟨-, l, -, rfl⟩ | ⟨-, rfl⟩
    · intro i r s hi hs
      by_cases hlt : i < (a.put p (q.to l)).procs.length
      · rw [List.getElem?_append_left hlt] at hi
        exact hto l i r s hi hs
      · rw [List.getElem?_append_right (Nat.le_of_not_lt hlt), List.getElem?_singleton] at hi
        split_ifs at hi
        cases hi
        cases hs
    · exact hto _
  | pause l =>
    rcases hd with rfl | ⟨-, rfl⟩
    · exact h.put (by simp)
    · exact h.put (by simp)
  | retire l =>
    rw [show a' = _ from hd]
    exact h.put (by simp)
  | leave l =>
    rw [show a' = _ from hd]
    have hret : (a.put p { q with loc := l, standing := .retired }).Drained := h.put (by simp)
    split
    · exact hret.awaken _
    · exact hret
  | wrong => exact hd.elim

theorem Reachable.drained {l : L} {v : V} (h : Reachable N M prog l v a) : a.Drained := by
  refine h.invariant (fun i r s hi hs => ?_) fun a p q a' ha _ hq hd => hd.drained hq ha
  cases i with
  | zero =>
    cases hi
    cases hs
  | succ i => simp at hi

theorem Does.signal {s j : ℕ} {l : L} (hd : Does N M a p q a' (.signal s l))
    (hj : ∀ i r, a.procs[i]? = some r → r.standing = .asleep s → i = j) :
    (∃ r, a.procs[j]? = some r ∧ r.standing = .asleep s ∧
      a' = (a.put p (q.to l)).put j { r with standing := .active }) ∨
    a.Unslept s ∧ ∃ n, a.sems[s]? = some n ∧ a' = (a.put p (q.to l)).units s (n + 1) := by
  rcases hd with ⟨i, r, hi, hs, rfl⟩ | h
  · obtain rfl := hj i r hi hs
    exact .inl ⟨r, hi, hs, rfl⟩
  · exact .inr h

/-! ## Units -/

/-- What the process holds at a location that holds `w`: one that sleeps has not got its unit yet,
which counts `c`. -/
def held (c : ℕ → ℤ) (w : L → ℤ) (q : Proc L) : ℤ :=
  match q.standing with
  | .asleep s => w q.loc - c s
  | _ => w q.loc

end Counting
