import AdvancedOS.Machine.Reach

/-!
# Calls and returns in a history

* `pending tr p`: the system call that `p` has made and not yet gone on from;
* `called P`, `returned P`: the number of calls made, and of calls gone on from, that satisfy `P`;
* `Reachable.disciplined`: a process in ring 3 has no call pending.
-/

namespace AdvancedOS

open Function (update)

/-- The call that `p` has made and not yet gone on from. -/
def pending : List Event → Slot → Option Call
  | [] => fun _ => none
  | .call p c :: tr => update (pending tr) p (some c)
  | .goesOn p :: tr => update (pending tr) p none
  | _ :: tr => pending tr

/-- The number of calls that satisfy `P`. -/
def called (P : Slot → Call → Bool) : List Event → ℕ
  | [] => 0
  | .call p c :: tr => called P tr + (P p c).toNat
  | _ :: tr => called P tr

/-- The number of calls that satisfy `P` and that the caller has gone on from. -/
def returned (P : Slot → Call → Bool) : List Event → ℕ
  | [] => 0
  | .goesOn p :: tr => returned P tr + ((pending tr p).any (P p)).toNat
  | _ :: tr => returned P tr

/-! ## Events that are neither a call nor a return -/

section

variable {tr : List Event} {p : Slot} {c : Call} (P : Slot → Call → Bool)

@[simp] theorem pending_call : pending (.call p c :: tr) = update (pending tr) p (some c) := rfl

@[simp] theorem pending_goesOn : pending (.goesOn p :: tr) = update (pending tr) p none := rfl

/-- The event is neither a call nor a return. -/
def Event.Silent : Event → Prop
  | .call .. | .goesOn _ => False
  | _ => True

theorem pending_silent {e : Event} (he : e.Silent) : pending (e :: tr) = pending tr := by
  cases e <;> first | exact he.elim | rfl

theorem called_silent {e : Event} (he : e.Silent) : called P (e :: tr) = called P tr := by
  cases e <;> first | exact he.elim | rfl

theorem returned_silent {e : Event} (he : e.Silent) : returned P (e :: tr) = returned P tr := by
  cases e <;> first | exact he.elim | rfl

end

/-! ## Undefined behaviour -/

theorem Seeks.no_fault {s : Sched} {m : Mode} {y : View} (h : Seeks s m y) (hm : ∀ f, m ≠ .fault f)
    (f : Fault) : y.mode ≠ .fault f := by
  cases h with
  | nobody => exact hm f
  | user | lost => simp

theorem Serves.fault_trace {s : Sched} {p : Slot} {c : Call} {y : View} {f : Fault}
    (h : Serves p s c y) (hf : y.mode = .fault f) : y.s.trace = s.trace := by
  cases h with
  | badFreeSem | badSemP | badSemV | headless => rfl
  | waits _ hy | blocked _ hy | wakes _ _ _ hy | endsWaking _ _ _ hy =>
    exact absurd hf (hy.no_fault (by simp) f)
  | _ => cases hf

/-! ## The discipline of calls -/

/-- In ring 3 the current process has no call pending; in the tail of `do_thread_exit` it is that
call. -/
structure View.Disciplined (x : View) : Prop where
  user : x.mode = .user → ∀ p, x.s.curr = some p → pending x.s.trace p = none
  exiting : x.mode = .tail .processReturn → ∀ p, x.s.curr = some p →
    pending x.s.trace p = some .threadExit

section

variable {s : Sched} {p : Slot} {m : Mode} {y : View}

theorem View.Disciplined.goesOn (hp : s.curr = some p) :
    View.Disciplined ⟨.user, s.emit (.goesOn p)⟩ := by
  refine ⟨fun _ q hq => ?_, by simp⟩
  rw [Sched.emit_curr, hp] at hq
  cases hq
  simp

theorem View.Disciplined.of_ne (hu : m ≠ .user) (hr : m ≠ .tail .processReturn) :
    View.Disciplined ⟨m, s⟩ := ⟨fun h => absurd h hu, fun h => absurd h hr⟩

theorem Seeks.disciplined (h : Seeks s m y) (hs : View.Disciplined ⟨m, s⟩) : y.Disciplined := by
  cases h with
  | nobody => exact ⟨hs.user, hs.exiting⟩
  | user => exact .goesOn rfl
  | lost => exact .of_ne (by simp) (by simp)

theorem Serves.disciplined {c : Call} (h : Serves p s c y) (hp : s.curr = some p)
    (hc : pending s.trace p = some c) : y.Disciplined := by
  have htail : ∀ {s' : Sched}, c.Exits → s'.curr = some p → pending s'.trace p = some c →
      View.Disciplined ⟨.tail c.tail, s'⟩ := by
    intro s' he hp' hc'
    refine ⟨by simp, fun hm q hq => ?_⟩
    rw [hp'] at hq
    cases hq
    cases c with
    | threadExit => exact hc'
    | exit => cases hm
    | _ => exact he.elim
  have hiret : ∀ {s' : Sched}, View.Disciplined ⟨.tail .iret, s'⟩ := .of_ne (by simp) (by simp)
  cases h with
  | quiet | spawned | noSem | gotSem | freed => exact .goesOn hp
  | file | full | taken | released | missed => exact hiret
  | waits _ hy | blocked _ hy | wakes _ _ _ hy => exact hy.disciplined hiret
  | ends he => exact htail he hp hc
  | endsWaking he _ _ hy => exact hy.disciplined (htail he hp hc)
  | leaves | badFreeSem | badSemP | badSemV | headless => exact .of_ne (by simp) (by simp)

theorem Moves.disciplined {x : View} {c : Option Call} (h : Moves x c y) (hx : x.Disciplined) :
    y.Disciplined := by
  cases h with
  | served _ hp hy => exact hy.disciplined hp (by simp)
  | finished hp => exact .goesOn hp
  | idle hm =>
    rcases hm with rfl | ⟨rfl, rfl⟩
    · exact hx
    · exact .of_ne (by simp) (by simp)
  | sought _ hy => exact hy.disciplined hx
  | created | failed => exact .of_ne (by simp) (by simp)

end

theorem Reachable.disciplined {G : Guard} {m : Machine} (h : Reachable G m) :
    m.view.Disciplined := by
  refine h.view (I := View.Disciplined) (.of_ne (by simp) (by simp)) ?_
  exact fun x c y _ hx _ hy => hy.disciplined hx

end AdvancedOS
