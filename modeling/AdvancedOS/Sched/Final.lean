import AdvancedOS.Machine.Reach

/-!
# Termination is final

`do_exit` looks for a parent that waits. If there is one, it does not return; if there is none, it
falls through to the process that has just been terminated.

* `parentWaits`: an exit takes place only while the parent of the caller waits;
* `terminated_for_ever`: **then a terminated process keeps its status, is never picked or woken, and
  neither executes nor calls anything**;
* `exit_returns`: without a waiting parent, the caller of `do_exit` goes on.
-/

namespace AdvancedOS

/-- `p` executes or is made to: it makes a system call, waits for a semaphore, goes on in ring 3, is
picked or is woken. -/
def Event.Involves (p : Slot) : Event → Prop
  | .call q _ | .goesOn q | .blocked q _ | .woken q | .picked _ (some q) => q = p
  | .picked _ none | .terminated _ | .gotSem .. => False

/-- No event of the history involves a process that was terminated before. -/
def NoneAfter : List Event → Prop
  | [] => True
  | e :: tr => (∀ p, .terminated p ∈ tr → ¬ e.Involves p) ∧ NoneAfter tr

theorem NoneAfter.later {p : Slot} {e : Event} {earlier : List Event} :
    ∀ {later : List Event}, NoneAfter (later ++ .terminated p :: earlier) → e ∈ later →
      ¬ e.Involves p
  | e' :: later, h, he => by
    rcases List.mem_cons.mp he with rfl | he
    · exact h.1 p (by simp)
    · exact NoneAfter.later h.2 he

/-- An exit takes place only while the parent of the caller waits. -/
def parentWaits : Guard
  | x, some c => c.Exits →
    ∃ p, x.s.curr = some p ∧ ∃ q, x.s.parent p = some q ∧ x.s.status q = .waiting
  | _, none => True

instance (x : View) (c : Option Call) : Decidable (parentWaits x c) := by
  cases c <;> unfold parentWaits <;> infer_instance

/-! ## The invariant -/

/-- The terminated processes are those whose termination is in the history. -/
structure Sched.Final (s : Sched) : Prop where
  status : ∀ p, s.status p = .terminated ↔ .terminated p ∈ s.trace
  after : NoneAfter s.trace

/-- Moreover no terminated process executes. -/
structure View.Final (x : View) : Prop where
  s : x.s.Final
  tail : x.mode ≠ .tail .processReturn
  curr : x.mode = .user ∨ x.mode = .tail .iret →
    ∀ p, x.s.curr = some p → x.s.status p ≠ .terminated

section

variable {s s' : Sched} {p q i : Slot} {m : Mode} {y : View} {t : Slot → Status} {st : Status}

theorem update_eq_terminated (hp : t p ≠ .terminated) (hst : st ≠ .terminated) :
    Function.update t p st i = .terminated ↔ t i = .terminated := by
  by_cases h : i = p
  · subst h
    simp [hp, hst]
  · simp [h]

namespace Sched.Final

theorem frame (h : s.Final) (hs : ∀ i, s'.status i = .terminated ↔ s.status i = .terminated)
    (ht : s'.trace = s.trace) : s'.Final where
  status p := by rw [hs, ht]; exact h.status p
  after := by rw [ht]; exact h.after

theorem emit (h : s.Final) {e : Event} (he : ∀ p, e.Involves p → s.status p ≠ .terminated)
    (hne : ∀ p, e ≠ .terminated p) : (s.emit e).Final where
  status p := by
    rw [Sched.emit_trace, List.mem_cons]
    exact (h.status p).trans (or_iff_right (hne p).symm).symm
  after := ⟨fun p hp hi => he p hi ((h.status p).mpr hp), h.after⟩

theorem setStatus (h : s.Final) {x : Status} (hp : s.status p ≠ .terminated)
    (hst : x ≠ .terminated) : (s.setStatus p x).Final :=
  h.frame (fun _ => update_eq_terminated hp hst) rfl

theorem ended (h : s.Final) : (s.ended p).Final where
  status i := by
    by_cases hi : i = p
    · subst hi
      simp
    · simp [hi, h.status i]
  after := ⟨fun _ _ hi => hi, h.after⟩

theorem woke (h : s.Final) (hq : s.status q = .waiting) : (s.woke q).Final := by
  refine (h.setStatus (p := q) (x := .ready) (by simp [hq]) (by decide)).emit (e := .woken q) ?_
    (by simp)
  rintro p rfl
  simp

theorem queued (h : s.Final) (hp : s.status p ≠ .terminated) (i : SemId) :
    (s.queued p i).Final := by
  have := (h.setStatus hp (x := .waiting) (by decide)).emit (e := .blocked p i)
    (by rintro q rfl; simp) (by simp)
  exact this.frame (fun _ => Iff.rfl) rfl

theorem left (h : s.Final) : (s.left p).Final :=
  h.ended.frame (fun _ => Iff.rfl) rfl

theorem spawn (h : s.Final) (hi : s.status i = .new) (parent : Option Slot) :
    (s.spawn i parent).Final :=
  h.frame (fun _ => update_eq_terminated (by simp [hi]) (by decide)) rfl

end Sched.Final

theorem Sched.Final.switchTo (h : s.Final) (hq : pick s.status = some q) :
    (s.switchTo q).Final := by
  have := h.emit (e := .picked s.status (some q))
    (by rintro p rfl; exact pick_ne hq (by decide) (by decide)) (by simp)
  exact this.frame (fun i => promote_pick hq (by decide) (by decide)) rfl

theorem Seeks.final (h : Seeks s m y) (hs : s.Final)
    (hm : pick s.status = none → m ≠ .tail .processReturn ∧ (m = .user ∨ m = .tail .iret →
      ∀ p, s.curr = some p → s.status p ≠ .terminated)) : y.Final := by
  cases h with
  | nobody hn => exact ⟨hs.emit (fun p hp => hp.elim) (by simp), (hm hn).1, (hm hn).2⟩
  | @user q hq =>
    have hrun : (s.switchTo q).status q ≠ .terminated := by
      rw [Sched.switchTo_status, promote_self]
      decide
    refine ⟨(hs.switchTo hq).emit ?_ (by simp), by simp, ?_⟩
    · rintro p rfl
      exact hrun
    · rintro - p ⟨⟩
      exact hrun
  | lost hq => exact ⟨hs.switchTo hq, by simp, by simp⟩

theorem Serves.final {c : Call} (h : Serves p s c y) (hw : s.Wf) (hs : s.Final)
    (hp : s.curr = some p) (hterm : s.status p ≠ .terminated)
    (hg : c.Exits → ∃ q, s.parent p = some q ∧ s.status q = .waiting) : y.Final := by
  have hcurr : ∀ i, s.curr = some i → s.status i ≠ .terminated := by
    intro i hi
    rw [hp] at hi
    cases hi
    exact hterm
  have hgo : ∀ {s' : Sched}, s'.Final → s'.curr = some p → s'.status p ≠ .terminated →
      View.Final ⟨.user, s'.emit (.goesOn p)⟩ := by
    intro s' hs' hp' hterm'
    refine ⟨hs'.emit (by rintro i rfl; exact hterm') (by simp), by simp, ?_⟩
    intro _ i hi
    rw [Sched.emit_curr, hp'] at hi
    cases hi
    exact hterm'
  have hend : ∀ {q}, s.parent p = some q → s.status q = .waiting →
      (s.ended p).status q = .waiting := by
    intro q hq hw'
    have hqp : q ≠ p := fun e => hw.parent_ne p (e ▸ hq)
    simpa [hqp] using hw'
  have hsem : ∀ {i x}, (s.setSem i x).Final := hs.frame (fun _ => Iff.rfl) rfl
  -- who blocks is waiting, not terminated
  have hwait : ∀ {s' : Sched}, s'.curr = some p → s'.status p = .waiting → ∀ i,
      s'.curr = some i → s'.status i ≠ .terminated := by
    intro s' hp' hst i hi
    rw [hp'] at hi
    cases hi
    simp [hst]
  cases h with
  | quiet | noSem => exact hgo hs hp hterm
  | file | full => exact ⟨hs, by simp, fun _ => hcurr⟩
  | @spawned _ i _ hi =>
    refine hgo (hs.spawn hi _) hp ?_
    rw [Sched.spawn_status, ne_eq, update_eq_terminated (by simp [hi]) (by decide)]
    exact hterm
  | waits _ hy =>
    exact hy.final (hs.setStatus hterm (by decide)) fun _ => ⟨by simp, fun _ => hwait hp (by simp)⟩
  | ends hc hq =>
    obtain ⟨q, hq', hw'⟩ := hg hc
    exact absurd (hend hq' hw') (hq q hq')
  | @endsWaking _ q _ _ _ hq hy =>
    exact hy.final (hs.ended.woke hq) fun hn => absurd hn (pick_ne_none (i := q) (by simp))
  | leaves => exact ⟨hs.left, by simp, by simp⟩
  | gotSem => exact hgo (hsem.emit (fun _ h => h.elim) (by simp)) hp hterm
  | freed => exact hgo hsem hp hterm
  | badFreeSem | badSemP | badSemV => exact ⟨hs, by simp, by simp⟩
  | taken | released | missed => exact ⟨hsem, by simp, fun _ => hcurr⟩
  | blocked _ hy =>
    exact hy.final (hs.queued hterm _) fun _ => ⟨by simp, fun _ => hwait hp (by simp)⟩
  | headless => exact ⟨hsem, by simp, by simp⟩
  | @wakes _ h _ _ _ hh hy =>
    exact hy.final (hsem.woke hh) fun hn => absurd hn (pick_ne_none (i := h) (by simp))

theorem Moves.final {x : View} {c : Option Call} (h : Moves x c y) (hw : x.Wf) (hx : x.Final)
    (hg : parentWaits x c) : y.Final := by
  cases h with
  | @served m s p c y hm hp hy =>
    have hterm : s.status p ≠ .terminated := by
      refine hx.curr (.inl ?_) p hp
      rcases hm with rfl | ⟨rfl, -⟩
      · rfl
      · exact absurd rfl hx.tail
    refine hy.final (hw.s.emit _) (hx.s.emit ?_ (by simp)) hp hterm ?_
    · rintro i rfl
      exact hterm
    · intro hc
      obtain ⟨p', hp', q, hq, hw'⟩ := hg hc
      rw [hp] at hp'
      cases hp'
      exact ⟨q, hq, hw'⟩
  | @finished s p hp =>
    have hterm := hx.curr (.inr rfl) p hp
    refine ⟨hx.s.emit ?_ (by simp), by simp, fun _ => hx.curr (.inr rfl)⟩
    rintro i rfl
    exact hterm
  | idle hm =>
    rcases hm with rfl | ⟨rfl, rfl⟩
    · exact hx
    · exact ⟨hx.s, by simp, fun _ => hx.curr (.inl rfl)⟩
  | sought _ hy => exact hy.final hx.s fun _ => ⟨hx.tail, hx.curr⟩
  | created hi => exact ⟨hx.s.spawn hi _, by simp, by simp⟩
  | failed => exact ⟨hx.s, by simp, by simp⟩

end

/-! ## The result -/

/-- **If every exit takes place while the parent of the caller waits, termination is final.** -/
theorem terminated_for_ever {m : Machine} (h : Reachable parentWaits m) :
    (∀ p, (m.k.procList p).status = .terminated ↔ .terminated p ∈ m.k.trace) ∧
      (∀ p later earlier, m.k.trace = later ++ .terminated p :: earlier →
        ∀ e ∈ later, ¬ e.Involves p) ∧
      (m.mode = .user → ∀ p, m.k.currProc = some p → (m.k.procList p).status ≠ .terminated) := by
  have hF : m.view.Final := by
    refine h.view (I := View.Final) ⟨⟨?_, trivial⟩, by simp, by simp⟩ ?_
    · intro p
      simp [Sched.start]
    · exact fun x c y hw hx hg hy => hy.final hw hx hg
  refine ⟨hF.s.status, fun p later earlier he e hl => ?_, fun hm => hF.curr (.inl hm)⟩
  have hafter : NoneAfter (later ++ .terminated p :: earlier) := he ▸ hF.s.after
  exact hafter.later hl

/-- A child exits while its parent waits for it. -/
theorem terminated_for_ever_child : ∃ m : Machine, (m.k.procList 1).status = .terminated ∧
    (∀ p, (m.k.procList p).status = .terminated ↔ .terminated p ∈ m.k.trace) ∧
      (∀ p later earlier, m.k.trace = later ++ .terminated p :: earlier →
        ∀ e ∈ later, ¬ e.Involves p) ∧
      (m.mode = .user → ∀ p, m.k.currProc = some p → (m.k.procList p).status ≠ .terminated) := by
  obtain ⟨m, hm, hP⟩ := RunsTo.of_exec (G := Guard.on parentWaits)
    (P := fun m => (m.k.procList 1).status = .terminated)
    [.load, .schedule, .sys 10, .sys 11, .sys 12] (by decide +kernel) (by decide +kernel)
  exact ⟨m, hP, terminated_for_ever hm⟩

/-- The only program exits, and goes on in ring 3 although it is terminated. -/
theorem exit_returns : ∃ m : Machine, Reachable anyStep m ∧ m.mode = .user ∧
    m.k.currProc = some 0 ∧ (m.k.procList 0).status = .terminated ∧
    ∃ earlier, m.k.trace = .goesOn 0 :: .terminated 0 :: earlier := by
  obtain ⟨m, hm, h1, h2, h3, h4⟩ := RunsTo.of_exec (G := anyStep.on)
    (P := fun m => m.mode = .user ∧ m.k.currProc = some 0 ∧
      (m.k.procList 0).status = .terminated ∧
      m.k.trace.take 2 = [.goesOn 0, .terminated 0])
    [.load, .schedule, .sys 12, .ret] (by decide +kernel) (by decide +kernel)
  refine ⟨m, hm, h1, h2, h3, m.k.trace.drop 2, ?_⟩
  rw [← List.take_append_drop 2 m.k.trace, h4]
  rfl

end AdvancedOS
