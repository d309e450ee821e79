import AdvancedOS.Sched.Model
import Mathlib.Data.Finset.Card

/-!
# Well-formed scheduling states

`Sched.Wf` collects what every reachable state satisfies: only the current process runs, no pointer
leads to an entry that was never allocated, and the identifiers `1, …, curr_pid` are those of the
allocated entries. `View.Wf` adds that in ring 3 and in the tail of a handler there is a current
process, and in the shell there is none.

* `Moves.wf`: **every step keeps a view well formed.**
-/

namespace AdvancedOS

open Function (update)

variable {s s' : Sched} {p q i : Slot} {m : Mode} {t : Slot → Status} {st : Status}

/-! ## Statuses -/

theorem update_eq_new (hp : t p ≠ .new) (hst : st ≠ .new) :
    update t p st i = .new ↔ t i = .new := by
  by_cases h : i = p
  · subst h
    simp [hp, hst]
  · simp [h]

theorem promote_self : promote q t q = .running := Function.update_self ..

theorem promote_of_ne (h : i ≠ q) :
    promote q t i = if t i = .running then .ready else t i := Function.update_of_ne h ..

theorem promote_eq_running : promote q t i = .running ↔ i = q := by
  by_cases h : i = q
  · subst h
    simp [promote_self]
  · rw [promote_of_ne h]
    split <;> simp [*]

theorem promote_eq (hst : st ≠ .ready) (hst' : st ≠ .running) (hq : t q ≠ st) :
    promote q t i = st ↔ t i = st := by
  by_cases h : i = q
  · subst h
    simp [promote_self, hq, hst'.symm]
  · rw [promote_of_ne h]
    split
    · simp [*, hst.symm, hst'.symm]
    · rfl

theorem promote_pick (h : pick t = some q) (hst : st ≠ .ready) (hst' : st ≠ .running) :
    promote q t i = st ↔ t i = st := promote_eq hst hst' (pick_ne h hst hst')

/-! ## The state -/

namespace Sched

/-- The entries that have been allocated. -/
def inUse (s : Sched) : Finset Slot := Finset.univ.filter fun i => s.status i ≠ .new

structure Wf (s : Sched) : Prop where
  running : ∀ i, s.status i = .running → s.curr = some i
  curr : ∀ i, s.curr = some i → s.status i ≠ .new
  parent : ∀ i j, s.parent i = some j → s.status j ≠ .new
  parent_ne : ∀ i, s.parent i ≠ some i
  next : ∀ i j, s.next i = some j → s.status j ≠ .new
  head : ∀ i j, (s.sem i).head = some j → s.status j ≠ .new
  pid_pos : ∀ i, s.status i ≠ .new → 0 < (s.pid i).toNat
  pid_le : ∀ i, s.status i ≠ .new → (s.pid i).toNat ≤ s.currPid.toNat
  pid_inj : ∀ i j, s.status i ≠ .new → s.status j ≠ .new → s.pid i = s.pid j → i = j
  count : s.currPid.toNat = s.inUse.card

namespace Wf

theorem frame (h : s.Wf) (hn : ∀ i, s'.status i = .new ↔ s.status i = .new)
    (hp : s'.pid = s.pid) (hc : s'.currPid = s.currPid) (hpar : s'.parent = s.parent)
    (hr : ∀ i, s'.status i = .running → s'.curr = some i)
    (hcu : ∀ i, s'.curr = some i → s.status i ≠ .new)
    (hne : ∀ i j, s'.next i = some j → s.status j ≠ .new)
    (hh : ∀ i j, (s'.sem i).head = some j → s.status j ≠ .new) : s'.Wf where
  running := hr
  curr i hi := by rw [ne_eq, hn]; exact hcu i hi
  parent i j hj := by rw [ne_eq, hn]; exact h.parent i j (by rwa [← hpar])
  parent_ne i := by rw [hpar]; exact h.parent_ne i
  next i j hj := by rw [ne_eq, hn]; exact hne i j hj
  head i j hj := by rw [ne_eq, hn]; exact hh i j hj
  pid_pos i hi := by rw [hp]; exact h.pid_pos i (by rwa [ne_eq, ← hn])
  pid_le i hi := by rw [hp, hc]; exact h.pid_le i (by rwa [ne_eq, ← hn])
  pid_inj i j hi hj hij := by
    rw [ne_eq, hn] at hi hj
    rw [hp] at hij
    exact h.pid_inj i j hi hj hij
  count := by
    rw [hc, h.count]
    congr 1
    ext i
    simp [inUse, hn]

theorem emit (h : s.Wf) (e : Event) : (s.emit e).Wf :=
  h.frame (fun _ => Iff.rfl) rfl rfl rfl h.running h.curr h.next h.head

theorem setStatus (h : s.Wf) {x : Status} (hp : s.status p ≠ .new) (hst : x ≠ .new)
    (hst' : x ≠ .running) : (s.setStatus p x).Wf := by
  refine h.frame (fun i => update_eq_new hp hst) rfl rfl rfl ?_ h.curr h.next h.head
  intro i hi
  by_cases hip : i = p
  · subst hip
    simp [hst'] at hi
  · exact h.running i (by simpa [hip] using hi)

theorem ended (h : s.Wf) (hp : s.status p ≠ .new) : (s.ended p).Wf :=
  (h.setStatus (x := .terminated) hp (by decide) (by decide)).emit (.terminated p)

theorem woke (h : s.Wf) (hp : s.status p ≠ .new) : (s.woke p).Wf :=
  (h.setStatus (x := .ready) hp (by decide) (by decide)).emit (.woken p)

theorem setSem (h : s.Wf) (i : SemId) {x : Semaphore}
    (hx : ∀ j, x.head = some j → s.status j ≠ .new) : (s.setSem i x).Wf := by
  refine h.frame (fun _ => Iff.rfl) rfl rfl rfl h.running h.curr h.next ?_
  intro i' j hj
  by_cases hi : i' = i
  · subst hi
    exact hx j (by simpa using hj)
  · exact h.head i' j (by simpa [hi] using hj)

theorem queued (h : s.Wf) (hp : s.status p ≠ .new) (i : SemId) : (s.queued p i).Wf := by
  refine h.frame (fun _ => update_eq_new hp (by decide)) rfl rfl rfl ?_ h.curr ?_ ?_
  · exact (h.setStatus (x := .waiting) hp (by decide) (by decide)).running
  · intro j j' hj
    by_cases hjp : j = p
    · subst hjp
      exact h.head i j' (by simpa using hj)
    · exact h.next j j' (by simpa [hjp] using hj)
  · refine (h.setSem i (x := { s.sem i with val := (s.sem i).val - 1, head := some p }) ?_).head
    rintro j ⟨⟩
    exact hp

theorem left (h : s.Wf) (hp : s.curr = some p) : (s.left p).Wf := by
  refine h.frame (fun _ => update_eq_new (h.curr p hp) (by decide)) rfl rfl rfl ?_ ?_ h.next h.head
  · intro i hi
    by_cases hip : i = p
    · subst hip
      simp at hi
    · have := h.running i (by simpa [hip] using hi)
      rw [hp] at this
      exact absurd (Option.some.inj this).symm hip
  · intro i hi
    simp at hi

theorem switchTo (h : s.Wf) (hq : s.status q ≠ .new) : (s.switchTo q).Wf := by
  refine h.frame (fun i => promote_eq (by decide) (by decide) hq) rfl rfl rfl ?_ ?_ h.next h.head
  · intro i hi
    rw [promote_eq_running.mp hi]
    rfl
  · rintro i ⟨⟩
    exact hq

/-- Fewer than `2 ^ 32` identifiers have been given. -/
theorem currPid_le (h : s.Wf) : s.currPid.toNat ≤ MAX_PROCESS := by
  rw [h.count]
  exact (Finset.card_le_univ _).trans_eq (Fintype.card_fin _)

theorem currPid_succ (h : s.Wf) : (s.currPid + 1).toNat = s.currPid.toNat + 1 := by
  have hle := h.currPid_le
  have hm : MAX_PROCESS = 20 := rfl
  rw [BitVec.toNat_add]
  exact Nat.mod_eq_of_lt (by simp; omega)

theorem inUse_spawn (i : Slot) (q : Option Slot) : (s.spawn i q).inUse = insert i s.inUse := by
  ext j
  by_cases hj : j = i
  · subst hj
    simp [inUse]
  · simp [inUse, hj]

theorem spawn (h : s.Wf) (hi : s.status i = .new) {parent : Option Slot}
    (hpar : ∀ j, parent = some j → s.status j ≠ .new) : (s.spawn i parent).Wf := by
  have hne : ∀ {j}, s.status j ≠ .new → j ≠ i := fun hj e => hj (e ▸ hi)
  -- what was allocated stays allocated
  have hmono : ∀ {j}, s.status j ≠ .new → (s.spawn i parent).status j ≠ .new := by
    intro j hj
    simpa [hne hj] using hj
  have hold : ∀ {j}, j ≠ i → (s.spawn i parent).status j ≠ .new → s.status j ≠ .new := by
    intro j hj hs
    simpa [hj] using hs
  have hpid : (s.spawn i parent).pid i = s.currPid + 1 := by simp
  refine ⟨?_, fun j hj => hmono (h.curr j hj), ?_, ?_, fun j j' hj => hmono (h.next j j' hj),
    fun j j' hj => hmono (h.head j j' hj), ?_, ?_, ?_, ?_⟩
  · intro j hj
    by_cases hji : j = i
    · subst hji
      simp at hj
    · exact h.running j (by simpa [hji] using hj)
  · intro j j' hj
    by_cases hji : j = i
    · subst hji
      exact hmono (hpar j' (by simpa using hj))
    · exact hmono (h.parent j j' (by simpa [hji] using hj))
  · intro j hj
    by_cases hji : j = i
    · subst hji
      exact hpar j (by simpa using hj) hi
    · exact h.parent_ne j (by simpa [hji] using hj)
  · intro j hj
    by_cases hji : j = i
    · rw [hji, hpid, h.currPid_succ]
      omega
    · simpa [hji] using h.pid_pos j (hold hji hj)
  · intro j hj
    rw [spawn_currPid, h.currPid_succ]
    by_cases hji : j = i
    · rw [hji, hpid, h.currPid_succ]
    · have := h.pid_le j (hold hji hj)
      simp only [spawn_pid, Function.update_of_ne hji]
      omega
  · have hfresh : ∀ j, j ≠ i → (s.spawn i parent).status j ≠ .new →
        s.pid j ≠ s.currPid + 1 := by
      intro j hji hj e
      have := h.pid_le j (hold hji hj)
      rw [e, h.currPid_succ] at this
      omega
    intro j j' hj hj' hjj'
    by_cases hji : j = i
    · by_cases hji' : j' = i
      · rw [hji, hji']
      · simp only [spawn_pid, hji, Function.update_self, Function.update_of_ne hji'] at hjj'
        exact absurd hjj'.symm (hfresh j' hji' hj')
    · by_cases hji' : j' = i
      · simp only [spawn_pid, hji', Function.update_self, Function.update_of_ne hji] at hjj'
        exact absurd hjj' (hfresh j hji hj)
      · simp only [spawn_pid, Function.update_of_ne hji, Function.update_of_ne hji'] at hjj'
        exact h.pid_inj j j' (hold hji hj) (hold hji' hj') hjj'
  · rw [inUse_spawn, Finset.card_insert_of_notMem (by simp [inUse, hi]), spawn_currPid,
      h.currPid_succ, h.count]

end Wf

end Sched

/-! ## The view -/

/-- In ring 3 and in the tail of a handler there is a current process, in the shell there is
none. -/
def Mode.Fits : Mode → Option Slot → Prop
  | .user, c | .tail _, c => c ≠ none
  | .shell, c => c = none
  | .lost, _ | .fault _, _ => True

structure View.Wf (x : View) : Prop where
  s : x.s.Wf
  fits : x.mode.Fits x.s.curr

theorem Seeks.wf {y : View} (h : Seeks s m y) (hs : s.Wf) (hm : m.Fits s.curr) : y.Wf := by
  cases h with
  | nobody => exact ⟨hs.emit _, hm⟩
  | user hq => exact ⟨(hs.switchTo (pick_ne_new hq)).emit _, Option.some_ne_none _⟩
  | lost hq => exact ⟨hs.switchTo (pick_ne_new hq), trivial⟩

theorem Serves.wf {c : Call} {y : View} (h : Serves p s c y) (hs : s.Wf) (hp : s.curr = some p) :
    y.Wf := by
  have hnew := hs.curr p hp
  have hc : s.curr ≠ none := by simp [hp]
  cases h with
  | quiet | noSem => exact ⟨hs.emit _, hc⟩
  | file | full => exact ⟨hs, hc⟩
  | spawned _ hi =>
    refine ⟨(hs.spawn hi ?_).emit _, hc⟩
    rintro j ⟨⟩
    exact hnew
  | waits _ hy => exact hy.wf (hs.setStatus hnew (by decide) (by decide)) hc
  | ends => exact ⟨hs.ended hnew, hc⟩
  | endsWaking _ _ hq hy => exact hy.wf ((hs.ended hnew).woke (by simp [hq])) hc
  | leaves => exact ⟨hs.left hp, rfl⟩
  | gotSem =>
    refine ⟨((hs.setSem _ ?_).emit _).emit _, hc⟩
    exact hs.head _
  | freed => exact ⟨(hs.setSem _ (by simp)).emit _, hc⟩
  | badFreeSem | badSemP | badSemV => exact ⟨hs, trivial⟩
  | taken | released => exact ⟨hs.setSem _ (hs.head _), hc⟩
  | blocked _ hy => exact hy.wf (hs.queued hnew _) hc
  | headless => exact ⟨hs.setSem _ (hs.head _), trivial⟩
  | missed => exact ⟨hs.setSem _ (hs.next p), hc⟩
  | wakes _ _ hh hy =>
    refine hy.wf ((hs.setSem _ (hs.next p)).woke ?_) hc
    simp [hh]

theorem Moves.wf {x y : View} {c : Option Call} (h : Moves x c y) (hx : x.Wf) : y.Wf := by
  cases h with
  | served _ hp hy => exact hy.wf (hx.s.emit _) hp
  | finished => exact ⟨hx.s.emit _, hx.fits⟩
  | idle hm =>
    refine ⟨hx.s, ?_⟩
    rcases hm with rfl | ⟨rfl, rfl⟩
    · exact hx.fits
    · exact hx.fits
  | sought _ hy => exact hy.wf hx.s hx.fits
  | created hi => exact ⟨hx.s.spawn hi (hx.s.parent _), hx.fits⟩
  | failed => exact ⟨hx.s, trivial⟩

end AdvancedOS
