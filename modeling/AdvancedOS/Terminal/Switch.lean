import AdvancedOS.Machine.Reach
import AdvancedOS.Terminal.Screen

/-!
# Switching terminals and back

`change_terminal` saves the screen in `curr_terminal`, clears the terminal that the output goes to,
and shows the new one. The output goes to the new terminal as well only if no process is current.

* `changeTerminal_shown`, `changeTerminal_hidden`: what `change_terminal` does if the output goes to
  the new terminal, and if it goes to another one, whose buffer is cleared;
* `changeTerminal_routing`: the kernel moves the pointers in this way;
* `Restored`: nothing is lost by a switch and the switch back;
* `restored_iff`: **exactly when this is so.**
-/

namespace AdvancedOS

variable {r : Routing} {c : Console} {idle : Prop} [Decidable idle] {a b : ℕ}

/-! ## One switch -/

/-- The position of the hardware cursor for the offset `o`. -/
def cell (o : ℤ) : BitVec 16 := BitVec.ofInt 16 (o.tdiv 2)

theorem cell_two_mul (x : BitVec 16) : cell (x.toNat * 2) = x := by
  rw [cell, Int.mul_tdiv_cancel _ two_ne_zero]
  simp

namespace Console

/-- The screen, the path and the directory of `t` are shown. -/
@[simps -fullyApplied]
def restore (t : Terminal) (c : Console) : Console :=
  { c with video := t.buf, currPath := t.path, currDir := t.dir }

theorem saveTerminal_eq (r : Routing) (c : Console) : saveTerminal r c =
    c.setTerminal r.curr fun _ => ⟨getCursor r c, c.video, c.currPath, c.currDir⟩ := by
  have hc : getCursor r (c.setTerminal r.curr fun t => { t with buf := c.video }) =
      getCursor r c := by
    unfold getCursor
    by_cases h : r.tmp = r.curr <;> simp [h]
  simp only [saveTerminal, hc]
  simp [setTerminal]

@[simp] theorem saveTerminal_self (r : Routing) (c : Console) :
    (saveTerminal r c).terminalList r.curr = ⟨getCursor r c, c.video, c.currPath, c.currDir⟩ := by
  simp [saveTerminal_eq]

end Console

open Console

/-- The output goes to the new terminal too. -/
theorem changeTerminal_shown (r : Routing) (c : Console) (h : (r.change idle b).tmp = b) :
    c.changeTerminal r idle b = some
      { (saveTerminal r c).restore ((saveTerminal r c).terminalList b) with
        hwCursor := cell ((saveTerminal r c).terminalList b).cursor } := by
  have hr : (r.change idle b).curr = (r.change idle b).tmp := h.symm
  rw [Console.changeTerminal, clearScreen_eq]
  simp only [Option.bind_eq_bind, Option.bind_some, Option.pure_def, Option.some.injEq]
  simp only [showTerminal, written, setScreen, setCursor, if_pos hr]
  rfl

/-- The output goes to another terminal, which is cleared. -/
theorem changeTerminal_hidden (r : Routing) (c : Console) (h : (r.change idle b).tmp ≠ b) :
    c.changeTerminal r idle b = some (((saveTerminal r c).setTerminal r.tmp fun t => { t with
      cursor := ((saveTerminal r c).terminalList b).cursor
      buf := blanked c.attributeVal t.buf }).restore ((saveTerminal r c).terminalList b)) := by
  have htmp : (r.change idle b).tmp = r.tmp := by
    unfold Routing.change at h ⊢
    split_ifs at h ⊢
    · exact absurd rfl h
    · rfl
  have hb : (r.change idle b).curr = b := rfl
  rw [htmp] at h
  have ha : (saveTerminal r c).attributeVal = c.attributeVal := by
    rw [saveTerminal_eq]
    rfl
  rw [Console.changeTerminal, clearScreen_eq, ha]
  simp only [Option.bind_eq_bind, Option.bind_some, Option.pure_def, Option.some.injEq]
  simp only [showTerminal, written, setScreen, setCursor, screen, htmp, hb, if_neg h.symm,
    setTerminal_terminalList, Function.update_of_ne h.symm, Function.update_self]
  simp [setTerminal, restore]

/-! ## There and back -/

/-- `change_terminal(b)` followed by `change_terminal` to the terminal that was shown. -/
def switchBack (r : Routing) (idle : Prop) [Decidable idle] (b : ℕ) (c : Console) :
    Option Console := do
  (← c.changeTerminal r idle b).changeTerminal (r.change idle b) idle r.curr

/-- What is shown is as it was, and so are the terminals other than `a`. -/
def Restored (a : ℕ) (c c' : Console) : Prop :=
  c'.video = c.video ∧ c'.hwCursor = c.hwCursor ∧ c'.currPath = c.currPath ∧
    c'.currDir = c.currDir ∧ ∀ i, i ≠ a → c'.terminalList i = c.terminalList i

/-- The hardware cursor can hold the offset that is stored. -/
def Terminal.Storable (t : Terminal) : Prop := (cell t.cursor).toNat * 2 = t.cursor

/-- The condition under which a switch to `b` and back restores everything. -/
def Restores (r : Routing) (idle : Prop) [Decidable idle] (b : ℕ) (c : Console) : Prop :=
  if idle then
    (r.tmp = r.curr ∨ c.hwCursor = cell (c.terminalList r.tmp).cursor) ∧
      (b = r.curr ∨ (c.terminalList b).Storable)
  else if r.tmp = r.curr then
    b = r.curr ∨ blanked c.attributeVal c.video = c.video ∧
      c.hwCursor = cell (c.terminalList b).cursor
  else
    blanked c.attributeVal (c.terminalList r.tmp).buf = (c.terminalList r.tmp).buf ∧
      (b = r.tmp → c.hwCursor = cell (c.terminalList b).cursor)

theorem getCursor_self (i : ℕ) (c : Console) : getCursor ⟨i, i⟩ c = c.hwCursor.toNat * 2 :=
  if_pos rfl

theorem getCursor_of_ne (h : r.curr ≠ r.tmp) (c : Console) :
    getCursor r c = (c.terminalList r.tmp).cursor := if_neg h

theorem cell_getCursor (r : Routing) (c : Console) : cell (getCursor r c) = c.hwCursor ↔
    r.tmp = r.curr ∨ c.hwCursor = cell (c.terminalList r.tmp).cursor := by
  by_cases h : r.tmp = r.curr
  · simp [getCursor, h, cell_two_mul]
  · simp [getCursor, h, Ne.symm h, eq_comm]

theorem forall_update_iff {f g : ℕ → Terminal} {t : Terminal} (hb : b ≠ a)
    (hg : ∀ i, i ≠ a → i ≠ b → g i = f i) :
    (∀ i, i ≠ a → Function.update g b t i = f i) ↔ t = f b := by
  refine ⟨fun h => by simpa using h b hb, fun h i hi => ?_⟩
  by_cases hib : i = b
  · rw [hib, Function.update_self, h]
  · rw [Function.update_of_ne hib, hg i hi hib]

theorem terminal_eq_iff {t : Terminal} {o : ℤ} {b : Screen} :
    (⟨o, b, t.path, t.dir⟩ : Terminal) = t ↔ o = t.cursor ∧ b = t.buf := by
  cases t
  simp

section

variable (r : Routing) (c : Console) (b : ℕ)

theorem restored_idle (hidle : idle) :
    (∃ c', switchBack r idle b c = some c' ∧ Restored r.curr c c') ↔
      (r.tmp = r.curr ∨ c.hwCursor = cell (c.terminalList r.tmp).cursor) ∧
        (b = r.curr ∨ (c.terminalList b).Storable) := by
  have h1 : r.change idle b = ⟨b, b⟩ := by simp [Routing.change, hidle]
  have h2 : (⟨b, b⟩ : Routing).change idle r.curr = ⟨r.curr, r.curr⟩ := by
    simp [Routing.change, hidle]
  rw [switchBack, changeTerminal_shown r c (by rw [h1]), h1, Option.bind_eq_bind, Option.bind_some,
    changeTerminal_shown _ _ (by rw [h2]), ← cell_getCursor]
  simp only [Option.some.injEq, exists_eq_left', Restored]
  simp only [saveTerminal_eq, Console.setTerminal_terminalList, Console.restore_terminalList,
    Console.restore_video, Console.restore_currPath, Console.restore_currDir, getCursor_self]
  by_cases hb : b = r.curr
  · subst hb
    simp only [Function.update_self, Function.update_idem, cell_two_mul, true_and, true_or,
      and_true]
    refine and_iff_left fun i hi => ?_
    rw [Function.update_of_ne hi]
  · simp only [ne_eq, hb, Ne.symm hb, not_false_eq_true, Function.update_of_ne,
      Function.update_self, false_or, true_and]
    rw [forall_update_iff hb fun i hi _ => Function.update_of_ne hi .., terminal_eq_iff]
    exact and_congr_right fun _ => and_iff_left rfl

theorem restored_own (hidle : ¬ idle) (hr : r.tmp = r.curr) :
    (∃ c', switchBack r idle b c = some c' ∧ Restored r.curr c c') ↔
      (b = r.curr ∨ blanked c.attributeVal c.video = c.video ∧
        c.hwCursor = cell (c.terminalList b).cursor) := by
  have h1 : r.change idle b = ⟨b, r.curr⟩ := by simp [Routing.change, hidle, hr]
  have h2 : (⟨b, r.curr⟩ : Routing).change idle r.curr = ⟨r.curr, r.curr⟩ := by
    simp [Routing.change, hidle]
  have hget : getCursor r c = c.hwCursor.toNat * 2 := if_pos hr.symm
  rw [switchBack]
  by_cases hb : b = r.curr
  · subst hb
    rw [changeTerminal_shown r c (by rw [h1]), h1, Option.bind_eq_bind, Option.bind_some,
      changeTerminal_shown _ _ (by rw [h2])]
    simp only [Option.some.injEq, exists_eq_left', Restored, saveTerminal_eq, hget, cell_two_mul,
      Console.setTerminal_terminalList, Console.restore_terminalList, Console.restore_video,
      Console.restore_currPath, Console.restore_currDir, getCursor_self, Function.update_self,
      Function.update_idem, true_and, true_or, iff_true]
    intro i hi
    rw [Function.update_of_ne hi]
  · rw [changeTerminal_hidden r c (by rw [h1]; exact Ne.symm hb), h1, Option.bind_eq_bind,
      Option.bind_some, changeTerminal_shown _ _ (by rw [h2]), hr]
    simp only [Option.some.injEq, exists_eq_left', Restored, saveTerminal_eq, hget,
      Console.setTerminal_terminalList, Console.restore_terminalList, Console.restore_video,
      Console.restore_currPath, Console.restore_currDir, getCursor_of_ne (r := ⟨b, r.curr⟩) hb,
      ne_eq, hb, Ne.symm hb, not_false_eq_true, Function.update_of_ne, Function.update_self,
      Function.update_idem, true_and, false_or]
    rw [eq_comm (a := cell _), ← and_assoc]
    exact and_iff_left ((forall_update_iff hb fun i hi _ => Function.update_of_ne hi ..).mpr rfl)

theorem restored_other (hidle : ¬ idle) (hr : r.tmp ≠ r.curr) :
    (∃ c', switchBack r idle b c = some c' ∧ Restored r.curr c c') ↔
      blanked c.attributeVal (c.terminalList r.tmp).buf = (c.terminalList r.tmp).buf ∧
        (b = r.tmp → c.hwCursor = cell (c.terminalList b).cursor) := by
  have h1 : r.change idle b = ⟨b, r.tmp⟩ := by simp [Routing.change, hidle]
  have h2 : (⟨b, r.tmp⟩ : Routing).change idle r.curr = ⟨r.curr, r.tmp⟩ := by
    simp [Routing.change, hidle]
  have hget : getCursor r c = (c.terminalList r.tmp).cursor := if_neg hr.symm
  rw [switchBack]
  by_cases hb : b = r.tmp
  · subst hb
    rw [changeTerminal_shown r c (by rw [h1]), h1, Option.bind_eq_bind, Option.bind_some,
      changeTerminal_hidden _ _ (by rw [h2]; exact hr)]
    simp only [Option.some.injEq, exists_eq_left', Restored, saveTerminal_eq, hget,
      Console.setTerminal_terminalList, Console.setTerminal_hwCursor,
      Console.setTerminal_attributeVal, Console.restore_terminalList, Console.restore_video,
      Console.restore_currPath, Console.restore_currDir, Console.restore_hwCursor,
      Console.restore_attributeVal, getCursor_self, ne_eq, hr, Ne.symm hr, not_false_eq_true,
      Function.update_of_ne, Function.update_self, Function.update_idem, true_and, true_imp_iff]
    rw [forall_update_iff hr fun i hi _ => Function.update_of_ne hi .., terminal_eq_iff,
      eq_comm (a := cell _), and_comm]
    exact and_congr_left fun _ => and_iff_right rfl
  · have hr' : ¬ r.curr = r.tmp := Ne.symm hr
    rw [changeTerminal_hidden r c (by rw [h1]; exact Ne.symm hb), h1, Option.bind_eq_bind,
      Option.bind_some, changeTerminal_hidden _ _ (by rw [h2]; exact hr)]
    simp only [Option.some.injEq, exists_eq_left', Restored, saveTerminal_eq, hget,
      Console.setTerminal_terminalList, Console.setTerminal_hwCursor,
      Console.setTerminal_attributeVal, Console.restore_terminalList, Console.restore_video,
      Console.restore_currPath, Console.restore_currDir, Console.restore_hwCursor,
      Console.restore_attributeVal, getCursor_of_ne (r := ⟨b, r.tmp⟩) hb, blanked_blanked,
      ne_eq, hb, Ne.symm hb, hr, not_false_eq_true, Function.update_of_ne,
      Function.update_self, true_and, false_imp_iff, and_true]
    by_cases hba : b = r.curr
    · subst hba
      simp only [Function.update_self, true_and]
      rw [forall_update_iff hr, terminal_eq_iff]
      · exact and_iff_right rfl
      · intro i hi hit
        simp only [Function.update_of_ne hi, Function.update_of_ne hit]
    · simp only [hba, Ne.symm hba, hr', not_false_eq_true, Function.update_of_ne, ne_eq,
        Function.update_self, true_and]
      rw [forall_update_iff hr, terminal_eq_iff]
      · exact and_iff_right rfl
      · intro i hi hit
        by_cases hib : i = b
        · rw [hib, Function.update_self]
        · simp only [Function.update_of_ne hi, Function.update_of_ne hit, Function.update_of_ne hib]

end

theorem changeTerminal_routing (k : Kernel) (i : ℕ) :
    Ends (changeTerminal i) k
      (fun _ k' => k'.routing = k.routing.change (k.currProc = none) i ∧ k'.currProc = k.currProc)
      (fun _ _ => False) := by
  cases hc : k.currProc with
  | none => simp [changeTerminal, Kernel.setFlag, hc, Kernel.routing, Routing.change]
  | some p => simp [changeTerminal, Kernel.setFlag, hc, Kernel.routing, Routing.change]

/-- **Switching to another terminal and back.** Everything is as before if and only if the
condition holds, whoever is current and whatever is on the screen and in the terminals. -/
theorem restored_iff (k : Kernel) (b : ℕ) (c : Console) :
    (∃ c', switchBack k.routing (k.currProc = none) b c = some c' ∧ Restored k.currTerminal c c') ↔
      Restores k.routing (k.currProc = none) b c := by
  unfold Restores
  split_ifs with hidle hr
  · exact restored_idle k.routing c b hidle
  · exact restored_own k.routing c b hidle hr
  · exact restored_other k.routing c b hidle hr

/-- A program is running on the terminal that is shown and prints a character, whatever was on the
screen before. After a switch to the next terminal and back the character is gone. -/
theorem not_restored : ∃ m : Machine, Reachable anyStep m ∧ m.k.currProc = some 0 ∧ ∀ c,
    ∃ c', putchar m.k.routing 0x58 0 0 c.attributeVal c = some c' ∧
      ¬ ∃ c'', switchBack m.k.routing (m.k.currProc = none) 1 c' = some c'' ∧
        Restored m.k.currTerminal c' c'' := by
  obtain ⟨m, hm, hp, hc, ht⟩ := RunsTo.of_exec (G := anyStep.on)
    (P := fun m => m.k.currProc = some 0 ∧ m.k.currTerminal = 0 ∧ m.k.tmpTerminal = 0)
    [.load, .schedule] (by decide +kernel) (by decide +kernel)
  have hr : m.k.routing = ⟨0, 0⟩ := by rw [Kernel.routing, hc, ht]
  refine ⟨m, hm, hp, fun c => ?_⟩
  have hput := putchar_corner (r := ⟨0, 0⟩) (c := c) (x := 0x58) (by decide) (by decide)
  rw [hr]
  refine ⟨_, hput, ?_⟩
  rw [hc, hp]
  set b := ((c.screen ⟨0, 0⟩).set 0 0x58).set 1 c.attributeVal with hb
  have hv : (c.written ⟨0, 0⟩ b 2).video = b := Console.written_screen ⟨0, 0⟩ b 2 c
  intro hback
  rcases (restored_own ⟨0, 0⟩ _ 1 (by simp) rfl).mp hback with h | ⟨h, -⟩
  · cases h
  · have h0 := congrFun h ⟨0, lt_VIDEO_SIZE (by decide)⟩
    rw [blanked_apply, if_pos (by decide), if_pos (by decide)] at h0
    have hx : b ⟨0, lt_VIDEO_SIZE (by decide)⟩ = 0x58 := rfl
    exact absurd (h0.trans ((congrFun hv _).trans hx)) (by decide)

end AdvancedOS
