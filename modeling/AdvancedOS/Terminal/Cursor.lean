import AdvancedOS.Lib.Run
import AdvancedOS.Stdio.Output
import AdvancedOS.Terminal.Window

/-!
# The cursor on the screen

* `eraseChar_eq`: **`getline` erases a character as a backspace does**;
* `Stroke`, `Call`: what moves the cursor, and the calls that print and read lines;
* `Call.run_eq`: **a call is its strokes, one after the other**;
* `stays_iff`: after `clear_screen` the cursor stays on the screen, and only the screen is written
  to, **exactly if nothing is erased while the cursor is in the top left corner**;
* `not_stays`: a backspace on an empty screen.
-/

namespace AdvancedOS.Stdio

variable {r : Routing} {c c₀ : Console} {t : Text (Byte × Byte)} {k : ℕ}

/-! ## Erasing a character -/

theorem getCursor_setCursor_neg : (getCursor r (setCursor r (-2) c)) = -2 ∨
    (getCursor r (setCursor r (-2) c)) = 131070 := by
  have hreg : (BitVec.ofInt 16 ((-2 : ℤ).tdiv 2)).toNat = 65535 := by decide
  unfold getCursor setCursor
  split_ifs
  · simp only [hreg]
    exact .inr (by decide)
  · simp [Console.setTerminal]

/-- **`getline` erases a character as a backspace does.** -/
theorem eraseChar_eq (h : OnScreen r c) : eraseChar r c = printChar r 0x08 c := by
  obtain ⟨k, hk, hcur⟩ := h.exists_cell
  have hx : (0x20 : Byte) ≠ 0x0A ∧ (0x20 : Byte) ≠ 0x08 := by decide
  have hattr : ∀ o, (setCursor r o c).attributeVal = c.attributeVal := fun o => by
    unfold setCursor
    split_ifs <;> rfl
  have hback : printChar r 0x08 c = _ := putchar_backspace hcur hk
  rw [hback, eraseChar, hcur]
  by_cases h0 : k = 0
  · -- the cursor goes to a place before the screen, or far behind it
    have hoff : ((k : ℤ) * 2 - 2) = -2 := by omega
    have hnone : printChar r 0x20 (setCursor r (-2) c) = none := by
      have hneg : ¬ ((0 : ℤ) ≤ -1 ∧ (0 : ℤ) ≤ -1) := by decide
      have hstore : ∀ b : Screen, ∀ y, (b.putCell (-2) 0x20 y = none) ∧ b.putCell 131070 0x20 y = none :=
        fun b y => ⟨rfl, rfl⟩
      rcases @getCursor_setCursor_neg r c with hc | hc
      · simp only [printChar, putchar, hneg, if_false, hc, hx, (hstore _ _).1, Option.bind_eq_bind,
          Option.bind_none]
      · simp only [printChar, putchar, hneg, if_false, hc, hx, (hstore _ _).2, Option.bind_eq_bind,
          Option.bind_none]
    rw [hoff, hnone, if_pos h0]
    rfl
  · have hk' : k - 1 < MAX_ROWS * MAX_COLS := by omega
    have hsmall : k - 1 < 65535 := hk'.trans (by decide)
    have hoff : ((k : ℤ) * 2 - 2) = ((k - 1 : ℕ) : ℤ) * 2 := by omega
    have hsucc : k - 1 + 1 = k := by omega
    have hcur' : getCursor r (setCursor r ((k - 1 : ℕ) * 2) c) = (k - 1 : ℕ) * 2 :=
      getCursor_setCursor (hsmall.trans (by decide)) c
    have hput : printChar r 0x20 (setCursor r ((k - 1 : ℕ) * 2) c) = _ :=
      putchar_cursor hx.1 hx.2 hcur' hk'
    rw [hoff, hput, if_neg h0, hsucc, Console.setCursor_screen, hattr, placed_of_lt hk, placed_of_lt hk']
    simp only [Option.bind_eq_bind, Option.bind_some, Option.pure_def, Option.some.injEq]
    rw [getCursor_written (by omega), hoff, Console.written, Console.setCursor_setCursor,
      Console.setCursor_setScreen, Console.setCursor_setCursor]
    rfl

/-! ## Calls -/

/-- What moves the cursor: a character that is printed, and one that `getline` erases. -/
inductive Stroke where
  | char (x : Byte)
  | erase

/-- The code for a stroke. -/
def strokeStep (r : Routing) (c : Console) : Stroke → Option Console
  | .char x => printChar r x c
  | .erase => eraseChar r c

/-- Something is erased. -/
def Stroke.erases : Stroke → Prop
  | .char x => x = 0x08
  | .erase => True

/-- The calls that print, with the characters that a format comes to, and `getline`, with the keys that
are pressed. -/
inductive Call where
  | print (message : CStr)
  | printChar (x : Byte)
  | printf (format : CStr) (args : ℕ → Arg) (l : List Byte) (h : printed format args = .ok l)
  | getline (keys : List Byte)

/-- The code of a call: the console after it. -/
def Call.run (r : Routing) (c : Console) : Call → Option Console
  | .print message => AdvancedOS.print r message c
  | .printChar x => Stdio.printChar r x c
  | .printf format args _ _ => (Stdio.printf r format args (some c)).toOption.join
  | .getline keys => (Stdio.getline r keys c).map Line.console

/-- The strokes of `getline`, with `n` characters in the line. -/
def lineStrokes : ℕ → List Byte → List Stroke
  | _, [] => []
  | n, ch :: keys =>
    if ch = 0x08 then
      if n = 0 then lineStrokes n keys else .erase :: lineStrokes (n - 1) keys
    else if ch = 0x0D ∨ ch = 0x0A then [.char ch]
    else .char ch :: lineStrokes (n + 1) keys

/-- The strokes of a call. -/
def Call.strokes : Call → List Stroke
  | .print message => message.toList.map .char
  | .printChar x => [.char x]
  | .printf _ _ l _ => l.map .char
  | .getline keys => lineStrokes 0 keys

theorem exec_chars (l : List Byte) (c : Console) : Run.exec (strokeStep r) c (l.map .char) =
    l.foldlM (fun c x => Stdio.printChar r x c) c := by
  induction l generalizing c with
  | nil => rfl
  | cons x l ih =>
    rw [List.map_cons, Run.exec, List.foldlM_cons]
    exact congrArg (Option.bind _) (funext fun c => ih c)

theorem foldl_bind (l : List Byte) (c : Option Console) :
    l.foldl (fun c x => c.bind (printChar r x)) c =
      c.bind fun c => l.foldlM (fun c x => Stdio.printChar r x c) c := by
  induction l generalizing c with
  | nil => cases c <;> rfl
  | cons x l ih =>
    rw [List.foldl_cons, ih, Option.bind_assoc]
    rfl

theorem getlineLoop_console (keys : List Byte) (res : List Byte) (c : Console) :
    (getlineLoop r keys res c).map Line.console =
      Run.exec (strokeStep r) c (lineStrokes res.length keys) := by
  induction keys generalizing res c with
  | nil => rfl
  | cons ch keys ih =>
    rw [getlineLoop, lineStrokes]
    by_cases hb : ch = 0x08
    · by_cases hres : res = []
      · simp only [hb, hres, if_true, List.length_nil]
        exact ih [] c
      · have hlen : res.length ≠ 0 := fun h => hres (List.length_eq_zero_iff.mp h)
        simp only [hb, hres, hlen, if_true, if_false, Option.bind_eq_bind, Option.map_bind, Run.exec,
          strokeStep]
        refine congrArg (Option.bind _) (funext fun c' => ?_)
        rw [Function.comp_apply, ih, List.length_dropLast]
    · by_cases hend : ch = 0x0D ∨ ch = 0x0A
      · simp only [hb, hend, if_true, if_false, Option.bind_eq_bind, Option.map_bind, Run.exec,
          strokeStep]
        exact congrArg (Option.bind _) (funext fun c' => rfl)
      · simp only [hb, hend, if_false, Option.bind_eq_bind, Option.map_bind, Run.exec, strokeStep]
        refine congrArg (Option.bind _) (funext fun c' => ?_)
        rw [Function.comp_apply, ih, List.length_append, List.length_singleton]

theorem Call.run_eq (r : Routing) (c : Console) (call : Call) :
    call.run r c = Run.exec (strokeStep r) c call.strokes := by
  cases call with
  | print message => exact (exec_chars message.toList c).symm
  | printChar x =>
    change Stdio.printChar r x c = (Stdio.printChar r x c).bind some
    cases Stdio.printChar r x c <;> rfl
  | printf format args l h =>
    rw [Call.strokes, exec_chars, Call.run, printf_eq, h]
    exact foldl_bind l (some c)
  | getline keys => exact getlineLoop_console keys [] c

/-! ## The result -/

/-- The cursor is at a cell of the screen, and nothing but the 4000 bytes of the screen has been
written since `c₀`. -/
def Inside (r : Routing) (c₀ c : Console) : Prop := OnScreen r c ∧ Drawn r c₀ c

/-- Nothing is erased with the cursor in the top left corner. -/
def OffCorner (r : Routing) (c : Console) (a : Stroke) : Prop := a.erases → getCursor r c ≠ 0

theorem printChar_corner (h : OnScreen r c) (h0 : getCursor r c = 0) : printChar r 0x08 c = none :=
  putchar_top (shows_textOf h) (by
    have hcur := (shows_textOf h).cursor
    omega)

/-- **A stroke stays on the screen exactly if it does not erase something at the top left corner.** -/
theorem inside_step (h : Inside r c₀ c) (a : Stroke) :
    (∃ c' ∈ strokeStep r c a, Inside r c₀ c') ↔ OffCorner r c a := by
  obtain ⟨hon, hd⟩ := h
  have hs := shows_textOf hon
  have hback : (∃ c' ∈ printChar r 0x08 c, Inside r c₀ c') ↔ getCursor r c ≠ 0 := by
    by_cases h0 : getCursor r c = 0
    · refine iff_of_false ?_ (not_not.mpr h0)
      rintro ⟨c', hc', -⟩
      exact Option.not_mem_none c' (printChar_corner hon h0 ▸ hc')
    · have hcur := hs.cursor
      obtain ⟨c', hc', hs', hd'⟩ := putchar_erased hs (by omega)
      exact iff_of_true ⟨c', hc', hs'.onScreen, hd.trans hd'⟩ h0
  unfold OffCorner
  cases a with
  | erase =>
    rw [strokeStep, eraseChar_eq hon]
    simpa [Stroke.erases] using hback
  | char x =>
    by_cases hx : x = 0x08
    · subst hx
      simpa [Stroke.erases, strokeStep] using hback
    · obtain ⟨c', hc', hs', hd'⟩ := putchar_typed hs hx
      exact iff_of_true ⟨c', hc', hs'.onScreen, hd.trans hd'⟩ fun h => absurd h hx

/-- Throughout the calls the cursor stays on the screen, and nothing else is written. -/
def Stays (r : Routing) (c : Console) (calls : List Call) : Prop :=
  Run.Keeps (strokeStep r) (Inside r c) c (calls.flatMap Call.strokes)

/-- Throughout the calls nothing is erased with the cursor in the top left corner. -/
def NeverInCorner (r : Routing) (c : Console) (calls : List Call) : Prop :=
  Run.Meets (strokeStep r) (OffCorner r) c (calls.flatMap Call.strokes)

theorem getCursor_written_zero (b : Screen) : getCursor r (c.written r b 0) = 0 :=
  @getCursor_written r 0 (by decide) b c

theorem onScreen_written_zero (b : Screen) : OnScreen r (c.written r b 0) := by
  unfold OnScreen
  rw [getCursor_written_zero]
  decide

/-- **After `clear_screen`, whatever is printed and whatever keys are pressed, the cursor stays on the
screen and only the screen is written to, exactly if no character is erased while the cursor is in
the top left corner.** -/
theorem stays_iff (r : Routing) (c : Console) (calls : List Call) :
    ∃ c₀, clearScreen r c = some c₀ ∧ (Stays r c₀ calls ↔ NeverInCorner r c₀ calls) :=
  ⟨_, clearScreen_eq r c, Run.keeps_iff_meets (fun _ a h => inside_step h a) _ _
    ⟨onScreen_written_zero _, .refl r _⟩⟩

/-- A backspace is printed on an empty screen. -/
theorem not_stays : ∃ c₀, clearScreen ⟨0, 0⟩ blankConsole = some c₀ ∧
    ¬ Stays ⟨0, 0⟩ c₀ [.print (.ofList [0x08])] := by
  refine ⟨_, clearScreen_eq _ _, fun h => ?_⟩
  obtain ⟨-, c', hc', -⟩ := h
  exact Option.not_mem_none c'
    (printChar_corner (onScreen_written_zero _) (getCursor_written_zero _) ▸ hc')

end AdvancedOS.Stdio
