import AdvancedOS.Terminal.Model
import Mathlib.Tactic.Ring

/-!
# What the output functions do

* `Console.written`: the bytes and the cursor of the terminal that the output goes to are replaced;
* `scrolled`, `cleared`: the bytes after `handle_scrolling`, and after a part of `clear_screen`;
* `putchar_cell`: what `putchar` does with a character that is printed;
* `clearScreen_eq`: **`clear_screen` leaves blanks with the current attribute, except in the last
  row, which is zero because the last blank scrolls the screen.**
-/

namespace AdvancedOS

variable {r : Routing} {c : Console} {b : Screen} {o : ℤ}

theorem lt_VIDEO_SIZE {i : ℕ} (h : i < 5120) : i < VIDEO_SIZE := h

theorem MAX_COLS_eq : MAX_COLS = 80 := rfl

theorem MAX_ROWS_eq : MAX_ROWS = 25 := rfl

/-! ## The terminal that the output goes to -/

namespace Console

/-- The bytes `b` and the cursor `o` for the terminal that the output goes to. -/
def written (r : Routing) (b : Screen) (o : ℤ) (c : Console) : Console :=
  setCursor r o (c.setScreen r b)

@[simp] theorem setScreen_screen (r : Routing) (b : Screen) (c : Console) :
    (c.setScreen r b).screen r = b := by
  unfold setScreen screen
  split_ifs with h <;> simp

@[simp] theorem setScreen_setScreen (r : Routing) (b b' : Screen) (c : Console) :
    (c.setScreen r b).setScreen r b' = c.setScreen r b' := by
  unfold setScreen
  split_ifs with h <;> simp [setTerminal]

theorem setScreen_self (r : Routing) (c : Console) : c.setScreen r (c.screen r) = c := by
  unfold setScreen screen
  split_ifs with h <;> simp [setTerminal]

@[simp] theorem setCursor_screen (r : Routing) (o : ℤ) (c : Console) :
    (setCursor r o c).screen r = c.screen r := by
  unfold setCursor screen
  split_ifs with h <;> simp

theorem setCursor_setScreen (r : Routing) (o : ℤ) (b : Screen) (c : Console) :
    (setCursor r o c).setScreen r b = setCursor r o (c.setScreen r b) := by
  unfold setCursor setScreen
  split_ifs with h <;> simp [setTerminal]

@[simp] theorem setCursor_setCursor (r : Routing) (o o' : ℤ) (c : Console) :
    setCursor r o' (setCursor r o c) = setCursor r o' c := by
  unfold setCursor
  split_ifs with h <;> simp [setTerminal]

theorem setCursor_getCursor (r : Routing) (c : Console) : setCursor r (getCursor r c) c = c := by
  unfold setCursor getCursor
  split_ifs with h
  · have : ((c.hwCursor.toNat : ℤ) * 2).tdiv 2 = c.hwCursor.toNat :=
      Int.mul_tdiv_cancel _ two_ne_zero
    simp [this]
  · simp [setTerminal]

@[simp] theorem written_screen (r : Routing) (b : Screen) (o : ℤ) (c : Console) :
    (c.written r b o).screen r = b := by
  simp [written]

@[simp] theorem written_attributeVal (r : Routing) (b : Screen) (o : ℤ) (c : Console) :
    (c.written r b o).attributeVal = c.attributeVal := by
  unfold written setCursor setScreen
  split_ifs <;> rfl

@[simp] theorem written_written (r : Routing) (b b' : Screen) (o o' : ℤ) (c : Console) :
    (c.written r b o).written r b' o' = c.written r b' o' := by
  simp [written, setCursor_setScreen]

theorem written_self (r : Routing) (c : Console) :
    c.written r (c.screen r) (getCursor r c) = c := by
  rw [written, setScreen_self, setCursor_getCursor]

end Console

/-! ## Loops over the bytes -/

theorem Screen.load_of_lt {i : ℕ} (h : i < VIDEO_SIZE) : b.load i = b ⟨i, h⟩ := dif_pos h

theorem Screen.load_congr {b' : Screen} {i : ℕ}
    (h : ∀ j : Fin VIDEO_SIZE, (j : ℕ) = i → b j = b' j) : b.load i = b'.load i := by
  unfold Screen.load
  split_ifs with hi
  · exact h _ rfl
  · rfl

theorem memoryCopy_apply (b : Screen) {src dst n : ℕ} (h : dst + n ≤ src) (j : Fin VIDEO_SIZE) :
    memoryCopy src dst n b j =
      if dst ≤ j ∧ j < dst + n then b.load (src + (j - dst)) else b j := by
  induction n generalizing j with
  | zero =>
    rw [memoryCopy, if_neg]
    omega
  | succ n ih =>
    have ih := ih (by omega)
    have hload : (memoryCopy src dst n b).load (src + n) = b.load (src + n) := by
      refine Screen.load_congr fun i hi => ?_
      rw [ih i, if_neg]
      omega
    simp only [memoryCopy, Screen.set, hload, ih j]
    by_cases hj : (j : ℕ) = dst + n
    · rw [if_pos hj, if_pos (by omega), show src + ((j : ℕ) - dst) = src + n by omega]
    · rw [if_neg hj]
      exact if_congr (by omega) rfl rfl

theorem shuffleRows_apply {i n : ℕ} (hi : 0 < i) (j : Fin VIDEO_SIZE) :
    shuffleRows i n b j =
      if (i - 1) * (MAX_COLS * 2) ≤ j ∧ j < (i - 1 + n) * (MAX_COLS * 2) then
        b.load (j + MAX_COLS * 2) else b j := by
  induction n generalizing i b with
  | zero =>
    rw [shuffleRows, if_neg]
    rw [Nat.add_zero]
    omega
  | succ n ih =>
    obtain ⟨i, rfl⟩ := Nat.exists_eq_succ_of_ne_zero hi.ne'
    have hm := memoryCopy_apply b (Nat.succ_mul i (MAX_COLS * 2)).ge
    have hadd : (i + 1) * (MAX_COLS * 2) = i * (MAX_COLS * 2) + MAX_COLS * 2 := Nat.succ_mul _ _
    have hend : (i + 1 + n) * (MAX_COLS * 2) = (i + (n + 1)) * (MAX_COLS * 2) := by ring
    have hle : i * (MAX_COLS * 2) + MAX_COLS * 2 ≤ (i + (n + 1)) * (MAX_COLS * 2) := by
      rw [← hadd]
      exact Nat.mul_le_mul_right _ (by omega)
    simp only [shuffleRows, Nat.succ_eq_add_one, Nat.add_sub_cancel] at *
    rw [ih (by omega), Nat.add_sub_cancel, hend]
    by_cases h1 : (i + 1) * (MAX_COLS * 2) ≤ j ∧ (j : ℕ) < (i + (n + 1)) * (MAX_COLS * 2)
    · rw [if_pos h1, if_pos (by omega)]
      refine Screen.load_congr fun j' hj' => ?_
      rw [hm, if_neg (by omega)]
    · rw [if_neg h1, hm]
      by_cases h2 : i * (MAX_COLS * 2) ≤ j ∧ (j : ℕ) < i * (MAX_COLS * 2) + MAX_COLS * 2
      · rw [if_pos h2, if_pos (by omega)]
        congr 1
        omega
      · rw [if_neg h2, if_neg (by omega)]

theorem blankLine_apply {i n : ℕ} (j : Fin VIDEO_SIZE) :
    blankLine i n b j = if i ≤ j ∧ j < i + n then 0 else b j := by
  induction n with
  | zero =>
    rw [blankLine, if_neg]
    omega
  | succ n ih =>
    simp only [blankLine, Screen.set, ih]
    by_cases hj : (j : ℕ) = i + n
    · rw [if_pos hj, if_pos (by omega)]
    · rw [if_neg hj]
      exact if_congr (by omega) rfl rfl

/-! ## Scrolling -/

/-- The bytes after `handle_scrolling` has scrolled. -/
def scrolled (b : Screen) : Screen := fun j =>
  if (j : ℕ) < 3840 then b.load (j + 160) else if (j : ℕ) < 4000 then 0 else b j

theorem handleScrolling_of_lt (h : o < 4000) (c : Console) : handleScrolling r o c = (o, c) :=
  if_pos (by simp only [MAX_ROWS_eq, MAX_COLS_eq]; omega)

theorem handleScrolling_of_le (h : 4000 ≤ o) (c : Console) :
    handleScrolling r o c = (o - 160, c.setScreen r (scrolled (c.screen r))) := by
  have hb : blankLine ((MAX_ROWS - 1) * (MAX_COLS * 2)) (MAX_COLS * 2)
      (shuffleRows 1 (MAX_ROWS - 1) (c.screen r)) = scrolled (c.screen r) := by
    funext j
    rw [blankLine_apply, shuffleRows_apply one_pos, scrolled]
    simp only [MAX_ROWS_eq, MAX_COLS_eq, Nat.reduceSub, Nat.reduceMul, Nat.reduceAdd, zero_mul,
      zero_le, true_and, Nat.zero_add]
    split_ifs <;> first | rfl | omega
  rw [handleScrolling, if_neg (by simp only [MAX_ROWS_eq, MAX_COLS_eq]; omega)]
  dsimp only
  rw [hb]
  rfl

/-! ## Characters -/

theorem store_eq {i : ℕ} (h : i < VIDEO_SIZE) (x : Byte) : b.store i x = some (b.set i x) := by
  have hi : (0 : ℤ) ≤ i ∧ (i : ℤ).toNat < VIDEO_SIZE := by omega
  rw [Screen.store, dif_pos hi]
  congr 1
  funext j
  by_cases hj : (j : ℕ) = i
  · have : j = ⟨(i : ℤ).toNat, hi.2⟩ := Fin.ext (by simpa using hj)
    rw [this, Function.update_self, Screen.set, if_pos (by simp)]
  · have : j ≠ ⟨(i : ℤ).toNat, hi.2⟩ := by
      rw [ne_eq, Fin.ext_iff]
      simpa using hj
    rw [Function.update_of_ne this, Screen.set, if_neg hj]

theorem putCell_eq {i : ℕ} (h : i + 1 < VIDEO_SIZE) (x attr : Byte) :
    b.putCell i x attr = some ((b.set i x).set (i + 1) attr) := by
  have h1 := store_eq (b := b) (i := i) (by omega) x
  have h2 := store_eq (b := b.set i x) h attr
  rw [Nat.cast_add, Nat.cast_one] at h2
  simp only [Screen.putCell, h1, Option.bind_eq_bind, Option.bind_some, h2]

/-- The bytes and the cursor after a character at the offset `o`, where `b` are the bytes with the
character on them. -/
theorem putchar_written (b : Screen) (o : ℤ) (c : Console) :
    (let x := handleScrolling r o (c.setScreen r b); setCursor r x.1 x.2) =
      if o < 4000 then c.written r b o else c.written r (scrolled b) (o - 160) := by
  split_ifs with h
  · rw [handleScrolling_of_lt h]
    rfl
  · rw [handleScrolling_of_le (by omega)]
    simp [Console.written]

/-- **A character that is printed at a place on the screen.** -/
theorem putchar_cell {x : Byte} {row col i : ℕ} (hx : x ≠ 0x0A) (hx' : x ≠ 0x08)
    (hi : (row * 80 + col) * 2 = i) (hlt : i < 4000) :
    putchar r x col row c.attributeVal c = some
      (if (i + 2 : ℤ) < 4000 then
        c.written r (((c.screen r).set i x).set (i + 1) c.attributeVal) (i + 2)
      else
        c.written r (scrolled (((c.screen r).set i x).set (i + 1) c.attributeVal))
          (i + 2 - 160)) := by
  have hoff : getScreenOffset col row = i := by
    rw [getScreenOffset, MAX_COLS_eq, ← hi]
    push_cast
    rfl
  have hcell := putCell_eq (b := c.screen r) (i := i) (lt_VIDEO_SIZE (by omega)) x
    c.attributeVal
  have hpos : (0 : ℤ) ≤ col ∧ (0 : ℤ) ≤ row := by omega
  simp only [putchar, ite_self, hpos, and_self, if_true, hoff, hx, hx', if_false, hcell,
    Option.pure_def, Option.bind_eq_bind, Option.bind_some, Option.some.injEq]
  exact putchar_written _ _ _

theorem putchar_corner {x : Byte} (hx : x ≠ 0x0A) (hx' : x ≠ 0x08) :
    putchar r x 0 0 c.attributeVal c =
      some (c.written r (((c.screen r).set 0 x).set 1 c.attributeVal) 2) :=
  @putchar_cell r c x 0 0 0 hx hx' rfl (by decide)

/-! ## `clear_screen` -/

/-- The first `n` bytes are those of blanks with the attribute `attr`. -/
def cleared (attr : Byte) (n : ℕ) (b : Screen) : Screen := fun j =>
  if (j : ℕ) < n then if (j : ℕ) % 2 = 0 then 0x20 else attr else b j

/-- The bytes after `k` turns of the inner loop of `clear_screen`. -/
def clearedCells (attr : Byte) (k : ℕ) (b : Screen) : Screen :=
  if k < 2000 then cleared attr (k * 2) b else scrolled (cleared attr 4000 b)

/-- The bytes after `clear_screen`. -/
def blanked (attr : Byte) (b : Screen) : Screen := clearedCells attr 2000 b

theorem cleared_zero (attr : Byte) (b : Screen) : cleared attr 0 b = b := by
  funext j
  exact if_neg (Nat.not_lt_zero _)

theorem cleared_succ (attr : Byte) (k : ℕ) (b : Screen) :
    ((cleared attr (k * 2) b).set (k * 2) 0x20).set (k * 2 + 1) attr =
      cleared attr ((k + 1) * 2) b := by
  funext j
  simp only [Screen.set, cleared]
  split_ifs <;> first | rfl | omega

theorem blanked_apply (attr : Byte) (b : Screen) (j : Fin VIDEO_SIZE) : blanked attr b j =
    if (j : ℕ) < 3840 then if (j : ℕ) % 2 = 0 then 0x20 else attr
    else if (j : ℕ) < 4000 then 0 else b j := by
  rw [blanked, clearedCells, if_neg (lt_irrefl _), scrolled]
  by_cases h1 : (j : ℕ) < 3840
  · rw [if_pos h1, if_pos h1, Screen.load_of_lt (lt_VIDEO_SIZE (by omega)), cleared,
      if_pos (by simp only; omega)]
    have hmod : ((j : ℕ) + 160) % 2 = 0 ↔ (j : ℕ) % 2 = 0 := by omega
    exact if_congr hmod rfl rfl
  · rw [if_neg h1, if_neg h1]
    by_cases h2 : (j : ℕ) < 4000
    · rw [if_pos h2, if_pos h2]
    · rw [if_neg h2, if_neg h2, cleared, if_neg h2]

theorem blanked_blanked (attr : Byte) (b : Screen) :
    blanked attr (blanked attr b) = blanked attr b := by
  funext j
  simp only [blanked_apply]
  split_ifs <;> rfl

theorem putchar_clear {row col k : ℕ} (hk : row * 80 + col = k) (hlt : k < 2000) (b : Screen)
    (o : ℤ) : ∃ o', putchar r 0x20 col row c.attributeVal
      (c.written r (clearedCells c.attributeVal k b) o) =
        some (c.written r (clearedCells c.attributeVal (k + 1) b) o') := by
  have h := putchar_cell (r := r) (c := c.written r (clearedCells c.attributeVal k b) o)
    (x := 0x20) (i := k * 2) (by decide) (by decide) (congrArg (· * 2) hk) (by omega)
  rw [Console.written_attributeVal] at h
  rw [h]
  simp only [Console.written_screen, Console.written_written, clearedCells, if_pos hlt,
    cleared_succ]
  by_cases hk' : k + 1 < 2000
  · exact ⟨_, by rw [if_pos (by push_cast; omega), if_pos hk']⟩
  · have : (k + 1) * 2 = 4000 := by omega
    exact ⟨_, by rw [if_neg (by push_cast; omega), if_neg hk', this]⟩

theorem clearRow_eq {row col n : ℕ} (hrow : row < 25) (hcol : col + n ≤ 80) (b : Screen) (o : ℤ) :
    ∃ o', clearRow r row col n (c.written r (clearedCells c.attributeVal (row * 80 + col) b) o) =
      some (c.written r (clearedCells c.attributeVal (row * 80 + (col + n)) b) o') := by
  induction n generalizing col o with
  | zero => exact ⟨o, rfl⟩
  | succ n ih =>
    obtain ⟨o₁, h₁⟩ := putchar_clear (r := r) (c := c) (k := row * 80 + col) rfl (by omega) b o
    obtain ⟨o₂, h₂⟩ := @ih (col + 1) (by omega) o₁
    refine ⟨o₂, ?_⟩
    rw [clearRow, Console.written_attributeVal, h₁]
    exact h₂.trans (by rw [add_right_comm, add_assoc])

theorem clearRows_eq {row n : ℕ} (hrow : row + n ≤ 25) (b : Screen) (o : ℤ) :
    ∃ o', clearRows r row n (c.written r (clearedCells c.attributeVal (row * 80) b) o) =
      some (c.written r (clearedCells c.attributeVal ((row + n) * 80) b) o') := by
  induction n generalizing row o with
  | zero => exact ⟨o, rfl⟩
  | succ n ih =>
    obtain ⟨o₁, h₁⟩ := @clearRow_eq r c row 0 80 (by omega) (by omega) b o
    obtain ⟨o₂, h₂⟩ := @ih (row + 1) (by omega) o₁
    refine ⟨o₂, ?_⟩
    rw [Nat.add_zero, Nat.zero_add, ← Nat.succ_mul] at h₁
    rw [clearRows, MAX_COLS_eq, h₁]
    exact h₂.trans (by rw [add_right_comm, add_assoc])

/-- **`clear_screen` never fails, and it leaves blanks and the cursor at the top.** -/
theorem clearScreen_eq (r : Routing) (c : Console) :
    clearScreen r c = some (c.written r (blanked c.attributeVal (c.screen r)) 0) := by
  obtain ⟨o, h⟩ := @clearRows_eq r c 0 25 le_rfl (c.screen r) (getCursor r c)
  rw [Nat.zero_mul, clearedCells, if_pos (by decide), Nat.zero_mul, cleared_zero,
    Console.written_self] at h
  rw [clearScreen, MAX_ROWS_eq, h]
  simp only [Option.pure_def, Option.bind_eq_bind, Option.bind_some, Option.some.injEq,
    Console.written, Console.setCursor_setCursor]
  rfl

end AdvancedOS
