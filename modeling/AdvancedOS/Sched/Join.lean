import AdvancedOS.Sched.Final
import AdvancedOS.Sched.History

/-!
# Joining threads

`do_thread_join` ignores the identifier that it is given: it makes its caller wait as `do_wait`
does, and any child that exits wakes it.

* `Sched.Exited tid`: the process with the identifier `tid` is terminated;
* `Fulfilled pid tr`: whoever has gone on from a join did so after the exit of the process it named;
* `beforeCall p tr`: the history before the last call of `p`;
* `joinsInTime`: the condition on the steps;
* `join_waits`: **under this condition a join waits for the thread that it names, and does not block
  if this thread has exited before**;
* `joined_other`: the second thread exits, and the join on the first one returns.
-/

namespace AdvancedOS

open Function (update)

variable {s s' : Sched} {c c' : Option Slot} {p q t i : Slot} {m : Mode} {y : View}
  {tid : Word} {pid pid' : Slot → Word} {tr : List Event} {e : Event} {d : Call}

/-- The process with the identifier `tid` is terminated. -/
def Sched.Exited (s : Sched) (tid : Word) : Prop := ∃ t, s.status t = .terminated ∧ s.pid t = tid

instance (s : Sched) (tid : Word) : Decidable (s.Exited tid) :=
  inferInstanceAs (Decidable (∃ _, _))

/-- Whoever has gone on from a join did so after the exit of the process it named. -/
def Fulfilled (pid : Slot → Word) : List Event → Prop
  | [] => True
  | e :: tr => (∀ p tid, e = .goesOn p → pending tr p = some (.threadJoin tid) →
      ∃ t, pid t = tid ∧ .terminated t ∈ tr) ∧ Fulfilled pid tr

/-- The history before the last call of `p`. -/
def beforeCall (p : Slot) : List Event → List Event
  | [] => []
  | .call q _ :: tr => if q = p then tr else beforeCall p tr
  | _ :: tr => beforeCall p tr

/-! ## Histories -/

theorem Fulfilled.later {earlier : List Event} (hp : pending earlier p = some (.threadJoin tid)) :
    ∀ {later : List Event}, Fulfilled pid (later ++ .goesOn p :: earlier) →
      ∃ t, pid t = tid ∧ .terminated t ∈ earlier
  | [], h => h.1 p tid rfl hp
  | _ :: _, h => Fulfilled.later hp h.2

theorem Fulfilled.congr (h : Fulfilled pid tr) (hpid : ∀ t, .terminated t ∈ tr → pid' t = pid t) :
    Fulfilled pid' tr := by
  induction tr with
  | nil => trivial
  | cons e tr ih =>
    refine ⟨fun p tid he hp => ?_, ih h.2 fun t ht => hpid t (List.mem_cons_of_mem _ ht)⟩
    obtain ⟨t, ht, hmem⟩ := h.1 p tid he hp
    exact ⟨t, (hpid t (List.mem_cons_of_mem _ hmem)).trans ht, hmem⟩

theorem Fulfilled.cons (h : Fulfilled pid tr) (he : ∀ p, e ≠ .goesOn p) : Fulfilled pid (e :: tr) :=
  ⟨fun p _ hp => absurd hp (he p), h⟩

theorem beforeCall_silent (he : e.Silent) : beforeCall p (e :: tr) = beforeCall p tr := by
  cases e <;> first | exact he.elim | rfl

theorem mem_of_mem_beforeCall (h : e ∈ beforeCall p tr) : e ∈ tr := by
  induction tr with
  | nil => exact h
  | cons e' tr ih =>
    cases e' with
    | call q d =>
      rw [beforeCall] at h
      split_ifs at h
      · exact List.mem_cons_of_mem _ h
      · exact List.mem_cons_of_mem _ (ih h)
    | _ => exact List.mem_cons_of_mem _ (ih h)

/-! ## The invariant -/

/-- The terminated processes are those whose exit is in the history. Who is in a join waits and is
not `c`, or the thread that it named is terminated. -/
structure Sched.Joins (c : Option Slot) (s : Sched) : Prop where
  status : ∀ p, s.status p = .terminated ↔ .terminated p ∈ s.trace
  waits : ∀ p tid, pending s.trace p = some (.threadJoin tid) →
    s.Exited tid ∨ s.status p = .waiting ∧ c ≠ some p
  fulfilled : Fulfilled s.pid s.trace

/-- Nobody is in a join on a thread that had already exited. -/
def Sched.Prompt (s : Sched) : Prop := ∀ p t,
  pending s.trace p = some (.threadJoin (s.pid t)) → .terminated t ∉ beforeCall p s.trace

theorem Sched.Exited.mono (h : s.Exited tid) (hs : ∀ t, s.status t = .terminated →
    s'.status t = .terminated ∧ s'.pid t = s.pid t) : s'.Exited tid := by
  obtain ⟨t, ht, hp⟩ := h
  exact ⟨t, (hs t ht).1, (hs t ht).2.trans hp⟩

namespace Sched.Joins

/-- Statuses change, but those of terminated processes and of processes in a join do not. -/
theorem frame (h : s.Joins c) (ht : s'.trace = s.trace)
    (hs : ∀ i, s'.status i = .terminated ↔ s.status i = .terminated)
    (hpid : ∀ i, s.status i = .terminated → s'.pid i = s.pid i)
    (hw : ∀ i, s.status i = .waiting → c ≠ some i → s'.status i = .waiting ∧ c' ≠ some i) :
    s'.Joins c' where
  status i := by rw [hs, ht]; exact h.status i
  waits i tid hp := by
    rw [ht] at hp
    refine (h.waits i tid hp).imp (fun he => he.mono fun t htt => ⟨(hs t).mpr htt, hpid t htt⟩) ?_
    rintro ⟨h1, h2⟩
    exact hw i h1 h2
  fulfilled := by
    rw [ht]
    exact h.fulfilled.congr fun t htt => hpid t ((h.status t).mpr htt)

theorem silent (h : s.Joins c) (he : e.Silent) (hne : ∀ p, e ≠ .terminated p) :
    (s.emit e).Joins c where
  status p := by
    rw [Sched.emit_trace, List.mem_cons]
    exact (h.status p).trans (or_iff_right (hne p).symm).symm
  waits p tid hp := by
    rw [Sched.emit_trace, pending_silent he] at hp
    exact h.waits p tid hp
  fulfilled := h.fulfilled.cons fun p hp => by simp [hp, Event.Silent] at he

theorem call (h : s.Joins c) (hd : ∀ tid, d ≠ .threadJoin tid) : (s.emit (.call p d)).Joins c where
  status q := by simpa using h.status q
  waits q tid hq := by
    by_cases hqp : q = p
    · subst hqp
      simp [hd] at hq
    · exact h.waits q tid (by simpa [hqp] using hq)
  fulfilled := h.fulfilled.cons (by simp)

theorem goesOn (h : s.Joins (some p)) : (s.emit (.goesOn p)).Joins (some p) where
  status q := by simpa using h.status q
  waits q tid hq := by
    by_cases hqp : q = p
    · subst hqp
      simp at hq
    · exact h.waits q tid (by simpa [hqp] using hq)
  fulfilled := by
    refine ⟨fun q tid he hq => ?_, h.fulfilled⟩
    cases he
    rcases h.waits p tid hq with ⟨t, ht, hpid⟩ | ⟨-, hne⟩
    · exact ⟨t, hpid, (h.status t).mp ht⟩
    · exact absurd rfl hne

/-- A join: its caller goes on running only if the thread that it names is terminated. -/
theorem join (h : s.Joins (some p)) {k : Option Slot} (hp : s.status p ≠ .terminated)
    (hc : ∀ i, k = some i → i = p ∧ s.Exited tid) :
    ((s.emit (.call p (.threadJoin tid))).setStatus p .waiting).Joins k := by
  have hs : ∀ i, update s.status p .waiting i = .terminated ↔ s.status i = .terminated := fun i =>
    update_eq_terminated hp (by decide)
  refine ⟨fun q => (hs q).trans (by simpa using h.status q), fun q tid' hq => ?_,
    h.fulfilled.cons (by simp)⟩
  have hmono : ∀ {tid'}, s.Exited tid' →
      ((s.emit (.call p (.threadJoin tid))).setStatus p .waiting).Exited tid' := fun he =>
    he.mono fun t ht => ⟨(hs t).mpr ht, rfl⟩
  by_cases hqp : q = p
  · subst hqp
    obtain rfl : tid = tid' := by simpa using hq
    cases hk : k with
    | none => exact .inr ⟨by simp, by simp⟩
    | some i => exact .inl (hmono (hc i hk).2)
  · have hq' : pending s.trace q = some (.threadJoin tid') := by simpa [hqp] using hq
    refine (h.waits q tid' hq').imp hmono fun hw => ⟨by simpa [hqp] using hw.1, fun he => ?_⟩
    exact hqp (hc q he).1

theorem ended (h : s.Joins c) (hp : ∀ tid, pending s.trace p ≠ some (.threadJoin tid)) :
    (s.ended p).Joins c where
  status i := by
    by_cases hi : i = p
    · subst hi
      simp
    · simp [hi, h.status i]
  waits i tid hi := by
    have hip : i ≠ p := by
      rintro rfl
      exact hp tid hi
    have hmono : s.Exited tid → (s.ended p).Exited tid := by
      refine fun he => he.mono fun t ht => ⟨?_, rfl⟩
      by_cases htp : t = p
      · simp [htp]
      · simpa [htp] using ht
    refine (h.waits i tid hi).imp hmono fun hw => ?_
    exact ⟨by simpa [hip] using hw.1, hw.2⟩
  fulfilled := h.fulfilled.cons (by simp)

theorem woke (h : s.Joins c) (hq : s.status q = .waiting)
    (hj : ∀ tid, pending s.trace q = some (.threadJoin tid) → s.Exited tid) :
    (s.woke q).Joins c := by
  have hs : ∀ i, update s.status q .ready i = .terminated ↔ s.status i = .terminated := fun i =>
    update_eq_terminated (by simp [hq]) (by decide)
  refine ⟨fun i => (hs i).trans (by simpa using h.status i), fun i tid hi => ?_,
    h.fulfilled.cons (by simp)⟩
  have hmono : s.Exited tid → (s.woke q).Exited tid := fun he =>
    he.mono fun t ht => ⟨(hs t).mpr ht, rfl⟩
  by_cases hiq : i = q
  · subst hiq
    exact .inl (hmono (hj tid hi))
  · refine (h.waits i tid hi).imp hmono fun hw => ?_
    exact ⟨by simpa [hiq] using hw.1, hw.2⟩

theorem spawn (h : s.Joins c) (hi : s.status i = .new) (parent : Option Slot) :
    (s.spawn i parent).Joins c := by
  refine h.frame rfl (fun _ => update_eq_terminated (by simp [hi]) (by decide)) (fun j hj => ?_)
    fun j hj hc => ⟨?_, hc⟩
  all_goals
    have hji : j ≠ i := by
      rintro rfl
      simp [hi] at hj
  · simp [hji]
  · simpa [hji] using hj

theorem switchTo (h : s.Joins c) (hq : pick s.status = some q) : (s.switchTo q).Joins (some q) := by
  refine (h.silent (e := .picked s.status (some q)) trivial (by simp)).frame rfl
    (fun i => promote_pick hq (by decide) (by decide)) (fun _ _ => rfl) ?_
  intro i hi _
  refine ⟨(promote_pick hq (by decide) (by decide)).mpr hi, ?_⟩
  rintro ⟨⟩
  exact pick_ne hq (by decide) (by decide) hi

end Sched.Joins

namespace Sched.Prompt

theorem frame (h : s.Prompt)
    (hp : ∀ p tid, pending s'.trace p = some (.threadJoin tid) →
      pending s.trace p = some (.threadJoin tid) ∧ beforeCall p s'.trace = beforeCall p s.trace)
    (hpid : ∀ t, .terminated t ∈ s.trace → s'.pid t = s.pid t) : s'.Prompt := by
  intro p t hj hmem
  obtain ⟨hj', hb⟩ := hp p _ hj
  rw [hb] at hmem
  rw [hpid t (mem_of_mem_beforeCall hmem)] at hj'
  exact h p t hj' hmem

theorem silent (h : s.Prompt) (he : e.Silent) : (s.emit e).Prompt := by
  refine h.frame (fun p tid hp => ?_) fun _ _ => rfl
  rw [Sched.emit_trace, pending_silent he] at hp
  exact ⟨hp, beforeCall_silent he⟩

theorem call (h : s.Prompt) (hd : ∀ tid, d ≠ .threadJoin tid) : (s.emit (.call p d)).Prompt := by
  refine h.frame (fun q tid hq => ?_) fun _ _ => rfl
  have hqp : q ≠ p := by
    rintro rfl
    simp [hd] at hq
  exact ⟨by simpa [hqp] using hq, if_neg (Ne.symm hqp)⟩

theorem goesOn (h : s.Prompt) : (s.emit (.goesOn p)).Prompt := by
  refine h.frame (fun q tid hq => ?_) fun _ _ => rfl
  have hqp : q ≠ p := by
    rintro rfl
    simp at hq
  exact ⟨by simpa [hqp] using hq, rfl⟩

theorem spawn (h : s.Prompt) (hs : s.Joins c) (hi : s.status i = .new) (parent : Option Slot) :
    (s.spawn i parent).Prompt := by
  refine h.frame (fun _ _ hp => ⟨hp, rfl⟩) fun t ht => ?_
  have hti : t ≠ i := by
    rintro rfl
    have := (hs.status t).mpr ht
    simp [hi] at this
  simp [hti]

theorem switchTo (h : s.Prompt) : (s.switchTo q).Prompt :=
  h.silent (e := .picked s.status (some q)) trivial

end Sched.Prompt

/-! ## Steps -/

/-- The identifier that the call names, if the call is a join, satisfies `P`. -/
def Call.OnJoin (P : Word → Prop) : Call → Prop
  | threadJoin tid => P tid
  | _ => True

instance (P : Word → Prop) [DecidablePred P] : DecidablePred (Call.OnJoin P)
  | .threadJoin tid => inferInstanceAs (Decidable (P tid))
  | .logo | .busy | .fork | .wait | .exit | .getPid | .getSem _ | .semP _ | .semV _ | .freeSem _
  | .processReturn | .threadCreate .. | .threadSelf | .threadExit | .file _ | .unknown =>
    isTrue trivial

/-- A join is called either while some other process is ready, or on a thread that has exited. A
thread exits only if the join that its parent waits in, if any, is on this thread or on one that has
exited. -/
def joinsInTime : Guard
  | x, some (.threadJoin tid) =>
    x.s.Exited tid ↔ ∀ q, x.s.curr ≠ some q → x.s.status q ≠ .ready
  | x, some .threadExit => ∀ p, x.s.curr = some p → ∀ q, x.s.parent p = some q →
    x.s.status q = .waiting →
      ∀ d ∈ pending x.s.trace q, d.OnJoin fun tid => x.s.pid p = tid ∨ x.s.Exited tid
  | _, some (.threadCreate ..) | _, some .processReturn => True
  | _, some d => d.Quiet
  | _, none => True

instance (x : View) : (c : Option Call) → Decidable (joinsInTime x c)
  | some (.threadJoin _) => inferInstanceAs (Decidable (_ ↔ _))
  | some .threadExit => inferInstanceAs (Decidable (∀ p, x.s.curr = some p → _))
  | none | some (.threadCreate ..) | some .processReturn | some .logo | some .busy | some .getPid
  | some .threadSelf | some (.file _) | some .unknown => isTrue trivial
  | some .fork | some .wait | some .exit | some (.getSem _) | some (.semP _) | some (.semV _)
  | some (.freeSem _) => isFalse id

/-- No terminated process executes, and who is in a join on a thread that had already exited is
about to return to ring 3. -/
structure View.Joined (x : View) : Prop where
  joins : x.s.Joins x.s.curr
  alive : x.mode = .user ∨ x.mode = .tail .iret →
    ∀ p, x.s.curr = some p → x.s.status p ≠ .terminated
  late : ∀ p t, pending x.s.trace p = some (.threadJoin (x.s.pid t)) →
    .terminated t ∈ beforeCall p x.s.trace →
      x.mode = .tail .iret ∧ x.s.curr = some p ∧ pick x.s.status = none

theorem View.Joined.prompt {x : View} (h : x.Joined) (hm : x.mode ≠ .tail .iret) : x.s.Prompt :=
  fun p t hp ht => hm (h.late p t hp ht).1

theorem View.Joined.of_prompt (h : s.Joins c) (hc : c = s.curr) (hl : s.Prompt)
    (ha : m = .user ∨ m = .tail .iret → ∀ p, s.curr = some p → s.status p ≠ .terminated) :
    View.Joined ⟨m, s⟩ :=
  ⟨hc ▸ h, ha, fun p t hp ht => absurd ht (hl p t hp)⟩

theorem Seeks.joined (h : Seeks s m y) (hs : s.Joins c)
    (hl : ∀ q, pick s.status = some q → s.Prompt)
    (hn : pick s.status = none → View.Joined ⟨m, s⟩) : y.Joined := by
  cases h with
  | nobody h =>
    obtain ⟨h1, h2, h3⟩ := hn h
    exact ⟨h1.silent (e := .picked s.status none) trivial (by simp), h2, h3⟩
  | @user q hq =>
    refine .of_prompt (hs.switchTo hq).goesOn rfl (hl q hq).switchTo.goesOn fun _ p hp => ?_
    cases hp
    simp [promote_self]
  | @lost q hq => exact .of_prompt (hs.switchTo hq) rfl (hl q hq).switchTo (by simp)

/-- A join called while some other process is ready, or on a thread that has exited. -/
theorem Seeks.joined_join
    (hy : Seeks ((s.emit (.call p (.threadJoin tid))).setStatus p .waiting) (.tail .iret) y)
    (hw : s.Wf) (hs : s.Joins (some p)) (hl : s.Prompt) (hp : s.curr = some p)
    (hterm : s.status p ≠ .terminated)
    (hg : s.Exited tid ↔ ∀ q, s.curr ≠ some q → s.status q ≠ .ready) : y.Joined := by
  have hother : ∀ q t, q ≠ p →
      pending (.call p (.threadJoin tid) :: s.trace) q = some (.threadJoin (s.pid t)) →
      .terminated t ∉ beforeCall q (.call p (.threadJoin tid) :: s.trace) := by
    intro q t hqp hq
    rw [beforeCall, if_neg (Ne.symm hqp)]
    exact hl q t (by simpa [hqp] using hq)
  by_cases he : s.Exited tid
  · have hnone : pick (update s.status p .waiting) = none := by
      rw [pick_eq_none]
      intro q
      by_cases hqp : q = p
      · simp [hqp]
      · have hcurr : s.curr ≠ some q := by
          rw [hp]
          exact fun h => hqp (Option.some.inj h).symm
        rw [Function.update_of_ne hqp]
        exact ⟨hg.mp he q hcurr, fun hr => hcurr (hw.running q hr)⟩
    refine hy.joined (hs.join (k := some p) hterm ?_) (fun q hq => ?_) fun _ => ⟨?_, ?_, ?_⟩
    · rintro i ⟨⟩
      exact ⟨rfl, he⟩
    · exact absurd (hnone.symm.trans hq) (by simp)
    · refine hs.join hterm fun i hi => ⟨?_, he⟩
      exact Option.some.inj (hi.symm.trans hp)
    · intro _ q hq
      have : q = p := Option.some.inj (hq.symm.trans hp)
      simp [this]
    · intro q t hq ht
      by_cases hqp : q = p
      · exact ⟨rfl, hqp ▸ hp, hnone⟩
      · exact absurd ht (hother q t hqp hq)
  · obtain ⟨q, hqc, hready⟩ : ∃ q, s.curr ≠ some q ∧ s.status q = .ready := by
      by_contra hno
      push Not at hno
      exact he (hg.mpr hno)
    have hqp : q ≠ p := by
      rintro rfl
      exact hqc hp
    refine hy.joined (hs.join (k := none) hterm (by simp)) (fun _ _ r t hr ht => ?_) fun hn =>
      absurd hn (pick_ne_none (i := q) (by simp [hqp, hready]))
    by_cases hrp : r = p
    · subst hrp
      have hpid : tid = s.pid t := by simpa using hr
      have hmem : .terminated t ∈ s.trace := by simpa [beforeCall] using ht
      exact he ⟨t, (hs.status t).mpr hmem, hpid.symm⟩
    · exact hother r t hrp hr ht

theorem Serves.joined (h : Serves p (s.emit (.call p d)) d y) (hw : s.Wf) (hs : s.Joins (some p))
    (hl : s.Prompt) (hp : s.curr = some p)
    (ha : d ≠ .processReturn → s.status p ≠ .terminated)
    (hg : joinsInTime ⟨m, s⟩ (some d)) : y.Joined := by
  -- the caller goes on at once, or is about to
  have hgo : ∀ {s' : Sched}, s'.Joins (some p) → s'.Prompt → s'.curr = some p →
      s'.status p ≠ .terminated → View.Joined ⟨.user, s'.emit (.goesOn p)⟩ := by
    intro s' h1 h2 h3 h4
    refine .of_prompt h1.goesOn h3.symm h2.goesOn fun _ q hq => ?_
    rw [Sched.emit_curr, h3] at hq
    cases hq
    exact h4
  have hstay : (∀ tid, d ≠ .threadJoin tid) → d ≠ .processReturn →
      View.Joined ⟨.tail .iret, s.emit (.call p d)⟩ := by
    intro hd hd'
    refine .of_prompt (hs.call hd) hp.symm (hl.call hd) fun _ q hq => ?_
    rw [Sched.emit_curr, hp] at hq
    cases hq
    exact ha hd'
  have hj : d.Quiet ∨ d.Spawns → (∀ tid, d ≠ .threadJoin tid) ∧ d ≠ .processReturn := by
    cases d <;> simp [Call.Quiet, Call.Spawns]
  -- the only call that ends a thread
  have hexit : d.Exits → d = .threadExit := by
    intro hd
    cases d with
    | threadExit => rfl
    | exit => exact hg.elim
    | _ => exact hd.elim
  cases h with
  | quiet hd =>
    obtain ⟨hj, hr⟩ := hj (.inl hd)
    exact hgo (hs.call hj) (hl.call hj) hp (ha hr)
  | file => exact hstay (by simp) (by simp)
  | full hd => exact hstay (hj (.inr hd)).1 (hj (.inr hd)).2
  | @spawned _ i hd hi =>
    obtain ⟨hj, hr⟩ := hj (.inr hd)
    have hpi : p ≠ i := by
      rintro rfl
      exact hw.curr p hp hi
    refine hgo ((hs.call hj).spawn hi (some p)) ((hl.call hj).spawn (hs.call hj) hi (some p)) hp ?_
    have := ha hr
    simpa [hpi] using this
  | waits hd hy =>
    obtain ⟨tid, rfl⟩ : ∃ tid, d = .threadJoin tid := by
      cases d with
      | threadJoin tid => exact ⟨tid, rfl⟩
      | wait => exact hg.elim
      | _ => exact hd.elim
    exact hy.joined_join hw hs hl hp (ha (by simp)) hg
  | ends hd =>
    obtain rfl := hexit hd
    have hj := (hs.call (p := p) (d := .threadExit) (by simp)).ended (p := p) (by simp)
    exact .of_prompt hj hp.symm ((hl.call (by simp)).silent (e := .terminated p) trivial)
      (by simp [Call.tail])
  | @endsWaking _ q _ hd hq hwt hy =>
    obtain rfl := hexit hd
    have hqp : q ≠ p := by
      rintro rfl
      simp at hwt
    have hw' : s.status q = .waiting := by simpa [hqp] using hwt
    have hj := (hs.call (p := p) (d := .threadExit) (by simp)).ended (p := p) (by simp)
    have hl' : (((s.emit (.call p .threadExit)).ended p).woke q).Prompt :=
      ((hl.call (by simp)).silent (e := .terminated p) trivial).silent (e := .woken q) trivial
    refine hy.joined (hj.woke hwt fun tid htid => ?_) (fun _ _ => hl') fun hn =>
      absurd hn (pick_ne_none (i := q) (by simp))
    have hpend : pending s.trace q = some (.threadJoin tid) := by
      have : pending (.terminated p :: .call p .threadExit :: s.trace) q = pending s.trace q := by
        rw [pending_silent (e := .terminated p) trivial, pending_call, Function.update_of_ne hqp]
      exact this.symm.trans htid
    rcases hg p hp q hq hw' _ hpend with hpid | he
    · exact ⟨p, by simp, hpid⟩
    · refine he.mono fun t ht => ⟨?_, rfl⟩
      by_cases htp : t = p
      · simp [htp]
      · simpa [htp] using ht
  | leaves =>
    have hj := (hs.call (p := p) (d := .processReturn) (by simp)).ended (p := p) (by simp)
    refine .of_prompt (c := none) (hj.frame rfl (fun _ => Iff.rfl) (fun _ _ => rfl) ?_) rfl
      ((hl.call (by simp)).silent (e := .terminated p) trivial) (by simp)
    exact fun i hi _ => ⟨hi, by simp⟩
  | noSem | gotSem | freed | badFreeSem | badSemP | badSemV | taken | blocked | released | headless
  | missed | wakes => exact hg.elim

theorem Moves.joined {x : View} {d : Option Call} (h : Moves x d y) (hw : x.Wf) (hx : x.Joined)
    (hg : joinsInTime x d) : y.Joined := by
  cases h with
  | @served m s p d y hm hp hy =>
    have hj := hx.joins
    rw [show s.curr = some p from hp] at hj
    refine hy.joined hw.s hj (hx.prompt ?_) hp (fun hd => hx.alive ?_ p hp) hg
    · rcases hm with rfl | ⟨rfl, -⟩ <;> simp
    · rcases hm with rfl | ⟨-, rfl⟩
      · exact .inl rfl
      · exact absurd rfl hd
  | @finished s p hp =>
    have hj := hx.joins
    rw [show s.curr = some p from hp] at hj
    refine .of_prompt hj.goesOn hp.symm ?_ fun _ => hx.alive (.inr rfl)
    intro q t hq ht
    have hqp : q ≠ p := by
      rintro rfl
      simp at hq
    obtain ⟨-, hq', -⟩ := hx.late q t (by simpa [hqp] using hq) ht
    exact hqp (Option.some.inj (hq'.symm.trans hp))
  | idle hm =>
    rcases hm with rfl | ⟨rfl, rfl⟩
    · exact hx
    · exact .of_prompt hx.joins rfl (hx.prompt (by simp)) fun _ => hx.alive (.inl rfl)
  | sought _ hy =>
    refine hy.joined hx.joins (fun q hq p t hp ht => ?_) fun _ => hx
    exact absurd ((hx.late p t hp ht).2.2.symm.trans hq) (by simp)
  | created hi =>
    exact .of_prompt (hx.joins.spawn hi _) rfl ((hx.prompt (by simp)).spawn hx.joins hi _) (by simp)
  | failed => exact .of_prompt hx.joins rfl (hx.prompt (by simp)) (by simp)

/-! ## The result -/

/-- **If joins on running threads are called while another process is ready, joins on threads that
have exited while none is, and no other thread exits meanwhile, a process goes on from a join only
after the thread that it named has exited, and is not suspended in a join on a thread that had
exited before.** -/
theorem join_waits {m : Machine} (h : Reachable joinsInTime m) :
    (∀ p, (m.k.procList p).status = .terminated ↔ .terminated p ∈ m.k.trace) ∧
      (∀ p tid later earlier, m.k.trace = later ++ .goesOn p :: earlier →
        pending earlier p = some (.threadJoin tid) →
        ∃ t, (m.k.procList t).pid = tid ∧ .terminated t ∈ earlier) ∧
      ∀ p t, pending m.k.trace p = some (.threadJoin (m.k.procList t).pid) →
        .terminated t ∈ beforeCall p m.k.trace → m.mode = .tail .iret ∧ m.k.currProc = some p := by
  have hJ : m.view.Joined := by
    refine h.view (I := View.Joined) ⟨⟨?_, ?_, trivial⟩, by simp, ?_⟩ ?_
    · simp [Sched.start]
    · simp [Sched.start, pending]
    · simp [Sched.start, pending]
    · exact fun x c y hw hx hg hy => hy.joined hw hx hg
  refine ⟨hJ.joins.status, fun p tid later earlier ht hp => ?_, fun p t hp ht => ?_⟩
  · have hf : Fulfilled m.k.sched.pid (later ++ .goesOn p :: earlier) := ht ▸ hJ.joins.fulfilled
    exact hf.later hp
  · obtain ⟨h1, h2, -⟩ := hJ.late p t hp ht
    exact ⟨h1, h2⟩

/-- A thread is joined, goes on exiting, and is joined once more. -/
theorem join_waits_twice : ∃ m : Machine, m.mode = .tail .iret ∧
    returned (fun p c => p = 0 ∧ c = .threadJoin 2) m.k.trace = 1 ∧
    .terminated 1 ∈ beforeCall 0 m.k.trace ∧
    (∀ p, (m.k.procList p).status = .terminated ↔ .terminated p ∈ m.k.trace) ∧
      (∀ p tid later earlier, m.k.trace = later ++ .goesOn p :: earlier →
        pending earlier p = some (.threadJoin tid) →
        ∃ t, (m.k.procList t).pid = tid ∧ .terminated t ∈ earlier) ∧
      ∀ p t, pending m.k.trace p = some (.threadJoin (m.k.procList t).pid) →
        .terminated t ∈ beforeCall p m.k.trace → m.mode = .tail .iret ∧ m.k.currProc = some p := by
  obtain ⟨m, hm, h1, h2, h3⟩ := RunsTo.of_exec (G := Guard.on joinsInTime)
    (P := fun m => m.mode = .tail .iret ∧
      returned (fun p c => p = 0 ∧ c = .threadJoin 2) m.k.trace = 1 ∧
      .terminated 1 ∈ beforeCall 0 m.k.trace)
    [.load, .schedule, .thread 0, .thread 1 2, .thread 3, .thread 1 2]
    (by decide +kernel) (by decide +kernel)
  exact ⟨m, h1, h2, h3, join_waits hm⟩

/-- The second thread exits while the first one is joined, and the join returns. -/
theorem joined_other : ∃ m : Machine, Reachable anyStep m ∧ (m.k.procList 1).pid = 2 ∧
    (m.k.procList 1).status = .ready ∧ .terminated 1 ∉ m.k.trace ∧
    ∃ earlier, m.k.trace = .goesOn 0 :: earlier ∧
      pending earlier 0 = some (.threadJoin 2) := by
  obtain ⟨m, hm, h1, h2, h3, h4, h5⟩ := RunsTo.of_exec (G := anyStep.on)
    (P := fun m => (m.k.procList 1).pid = 2 ∧ (m.k.procList 1).status = .ready ∧
      .terminated 1 ∉ m.k.trace ∧ m.k.trace.head? = some (.goesOn 0) ∧
      pending m.k.trace.tail 0 = some (.threadJoin 2))
    [.load, .schedule, .thread 0, .thread 0, .thread 1 2, .tick, .tick, .thread 3]
    (by decide +kernel) (by decide +kernel)
  exact ⟨m, hm, h1, h2, h3, m.k.trace.tail, (List.cons_head?_tail h4).symm, h5⟩

end AdvancedOS
