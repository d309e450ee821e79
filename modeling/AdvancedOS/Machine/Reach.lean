import AdvancedOS.Sched.Refine

/-!
# Runs of the machine

* `RunsTo G m`: `m` is reached from the state that `initialize` leaves by steps that meet `G`;
* `Reachable G m`: the same for a condition on the scheduling view;
* `RunsTo.wf`: every reachable machine is well formed;
* `Reachable.view`: **an invariant of the scheduling view holds of every reachable machine.**
-/

namespace AdvancedOS

/-- The state that `initialize` leaves, for any addresses and any memory, leads to `m` by steps that
meet `G`. -/
def RunsTo (G : Machine → Label → Prop) (m : Machine) : Prop :=
  ∃ (processReturn pthreadReturn : Word) (mem : Mem),
    Run.Reach step G (boot processReturn pthreadReturn mem) m

/-- A condition on a step: on the view before it and on the system call that it begins. -/
abbrev Guard := View → Option Call → Prop

/-- The step `l` of `m` meets `G`. -/
def Guard.on (G : Guard) (m : Machine) (l : Label) : Prop := G m.view (m.call l)

instance (G : Guard) [∀ x c, Decidable (G x c)] (m : Machine) (l : Label) : Decidable (G.on m l) :=
  inferInstanceAs (Decidable (G _ _))

/-- A run whose steps meet a condition on the view. -/
abbrev Reachable (G : Guard) (m : Machine) : Prop := RunsTo G.on m

/-- No condition. -/
def anyStep : Guard := fun _ _ => True

instance (x : View) (c : Option Call) : Decidable (anyStep x c) := isTrue trivial

/-- The scheduling state that `initialize` leaves. -/
def Sched.start : Sched where
  status := fun _ => .new
  next := fun _ => none
  parent := fun _ => none
  pid := fun _ => 0
  currPid := 0
  curr := none
  sem := fun _ => {}
  trace := []

theorem Sched.start_wf : Sched.start.Wf where
  running i hi := by cases hi
  curr i hi := by cases hi
  parent i j hj := by cases hj
  parent_ne i hi := by cases hi
  next i j hj := by cases hj
  head i j hj := by cases hj
  pid_pos i hi := absurd rfl hi
  pid_le i hi := absurd rfl hi
  pid_inj i j hi := absurd rfl hi
  count := by
    have : Sched.start.inUse = ∅ := Finset.filter_false_of_mem fun i _ => not_not_intro rfl
    rw [this]
    rfl

namespace RunsTo

variable {G H : Machine → Label → Prop} {m : Machine}

theorem mono (hGH : ∀ m l, G m l → H m l) (h : RunsTo G m) : RunsTo H m := by
  obtain ⟨pr, ptr, mem, h⟩ := h
  exact ⟨pr, ptr, mem, h.mono hGH⟩

theorem wf (h : RunsTo G m) : m.view.Wf := by
  obtain ⟨pr, ptr, mem, h⟩ := h
  refine h.invariant (I := fun m => m.view.Wf) ⟨Sched.start_wf, rfl⟩ ?_
  intro x l y hx _ he
  exact (step_moves hx he).wf hx

/-- The invariant rule, with well-formedness established. -/
theorem invariant {I : Machine → Prop} (h0 : ∀ pr ptr mem, I (boot pr ptr mem))
    (hs : ∀ x l y, x.view.Wf → I x → G x l → step x l = some y → I y) (h : RunsTo G m) : I m := by
  obtain ⟨pr, ptr, mem, h⟩ := h
  exact h.invariant₂ (J := fun m => m.view.Wf) (fun s hr => wf ⟨pr, ptr, mem, hr⟩)
    (h0 pr ptr mem) hs

theorem of_exec {P : Machine → Prop} [DecidablePred P] [∀ m l, Decidable (G m l)] (ls : List Label)
    (hm : Run.Meets step G (boot 0 0 fun _ => 0) ls)
    (h : (Run.exec step (boot 0 0 fun _ => 0) ls).any (fun m => P m) = true) :
    ∃ m, RunsTo G m ∧ P m := by
  obtain ⟨m, hr, hP⟩ := Run.exists_reach ls _ hm h
  exact ⟨m, ⟨0, 0, _, hr⟩, hP⟩

end RunsTo

namespace Reachable

variable {G : Guard} {m : Machine}

theorem view {I : View → Prop} (h0 : I ⟨.shell, Sched.start⟩)
    (hs : ∀ x c y, x.Wf → I x → G x c → Moves x c y → I y) (h : Reachable G m) : I m.view :=
  h.invariant (I := fun m => I m.view) (fun _ _ _ => h0) fun _ _ _ hw hx hg he =>
    hs _ _ _ hw hx hg (step_moves hw he)

theorem view₂ {I J : View → Prop} (hJ : ∀ m, Reachable G m → J m.view)
    (h0 : I ⟨.shell, Sched.start⟩)
    (hs : ∀ x c y, x.Wf → J x → I x → G x c → Moves x c y → I y) (h : Reachable G m) :
    I m.view := by
  obtain ⟨pr, ptr, mem, h⟩ := h
  refine h.invariant₂ (I := fun m => I m.view) (J := fun m => m.view.Wf ∧ J m.view)
    (fun s hr => ⟨RunsTo.wf ⟨pr, ptr, mem, hr⟩, hJ s ⟨pr, ptr, mem, hr⟩⟩) h0 ?_
  intro x l y hw hx hg he
  exact hs _ _ _ hw.1 hw.2 hx hg (step_moves hw.1 he)

end Reachable

/-! ## Labels -/

namespace Label

/-- Ring-3 code executes `int 0x80`. -/
def sys (no : Word) (arg : Word := 0) : Label := .int80 { cpu := { eax := no, ebx := arg } }

/-- Ring-3 code executes `int 0x81`. -/
def thread (no : Word) (arg : Word := 0) : Label := .int81 { cpu := { eax := no, ebx := arg } }

/-- `exec_user_prg` loads a program at the first address. -/
def load : Label := .create 0x20000 0

def tick : Label := .timer {}

/-- The handler returns. -/
def ret : Label := .finish {}

end Label

end AdvancedOS
