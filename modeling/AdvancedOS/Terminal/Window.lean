import AdvancedOS.Lib.Window
import AdvancedOS.Terminal.Screen

/-!
# The console as a window on a text

* `Shows`: the screen and the cursor of a console are those of the window on a text;
* `shows_ofConsole`: every console with the cursor on the screen shows a text;
* `Drawn`: only the 4000 bytes of the screen and the cursor have changed;
* `putchar_put`, `putchar_newline`, `putchar_erase`: **`putchar` writes to the text**, or leaves the
  screen where it has to go back from the top left corner.
-/

namespace AdvancedOS

variable {r : Routing} {c c' c'' : Console} {b : Screen} {t : Text (Byte × Byte)} {i k : ℕ} {o : ℤ}
  {x attr : Byte}

/-- The character and the attribute of a cell. -/
def Screen.cell (b : Screen) (i : ℕ) : Byte × Byte := (b.load (i * 2), b.load (i * 2 + 1))

/-- Write a cell. -/
def Screen.setCell (b : Screen) (i : ℕ) (x : Byte × Byte) : Screen :=
  (b.set (i * 2) x.1).set (i * 2 + 1) x.2

/-- The screen shows the window on `t`, and the cursor is at the place in it. -/
structure Shows (r : Routing) (t : Text (Byte × Byte)) (c : Console) : Prop where
  fits : t.Fits MAX_COLS MAX_ROWS (0, 0)
  cells : ∀ i < MAX_ROWS * MAX_COLS, (c.screen r).cell i = t.view MAX_COLS i
  cursor : getCursor r c = t.cursor MAX_COLS * 2

/-- The text that starts with the rows on the screen. -/
def textOf (r : Routing) (c : Console) : Text (Byte × Byte) where
  cells i := if i < MAX_ROWS * MAX_COLS then (c.screen r).cell i else (0, 0)
  pos := (getCursor r c).toNat / 2
  top := 0

theorem textOf_top (r : Routing) (c : Console) : (textOf r c).top = 0 := rfl

/-- The cursor is at a cell of the screen. -/
def OnScreen (r : Routing) (c : Console) : Prop :=
  0 ≤ getCursor r c ∧ getCursor r c < MAX_ROWS * MAX_COLS * 2 ∧ getCursor r c % 2 = 0

instance (r : Routing) (c : Console) : Decidable (OnScreen r c) :=
  inferInstanceAs (Decidable (_ ∧ _))

/-- Only the bytes of the screen and the cursor have changed. -/
def Drawn (r : Routing) (c c' : Console) : Prop :=
  ∃ b o, c' = c.written r b o ∧
    ∀ j : Fin VIDEO_SIZE, MAX_ROWS * MAX_COLS * 2 ≤ (j : ℕ) → b j = c.screen r j

theorem Drawn.refl (r : Routing) (c : Console) : Drawn r c c :=
  ⟨c.screen r, getCursor r c, (c.written_self r).symm, fun _ _ => rfl⟩

theorem Drawn.trans (h : Drawn r c c') (h' : Drawn r c' c'') : Drawn r c c'' := by
  obtain ⟨b, o, rfl, hb⟩ := h
  obtain ⟨b', o', rfl, hb'⟩ := h'
  refine ⟨b', o', Console.written_written .., fun j hj => ?_⟩
  rw [hb' j hj, Console.written_screen, hb j hj]

theorem Drawn.attributeVal (h : Drawn r c c') : c'.attributeVal = c.attributeVal := by
  obtain ⟨b, o, rfl, -⟩ := h
  exact Console.written_attributeVal ..

/-! ## The cursor -/

theorem getCursor_setCursor (hk : k < 65536) (c : Console) :
    getCursor r (setCursor r (k * 2) c) = k * 2 := by
  unfold getCursor setCursor
  split_ifs
  · have hdiv : ((k : ℤ) * 2).tdiv 2 = k := Int.mul_tdiv_cancel _ two_ne_zero
    simp only [hdiv, BitVec.ofInt_natCast, BitVec.toNat_ofNat]
    rw [Nat.mod_eq_of_lt hk]
  · simp [Console.setTerminal]

theorem getCursor_written (hk : k < 65536) (b : Screen) (c : Console) :
    getCursor r (c.written r b (k * 2)) = k * 2 := getCursor_setCursor hk _

theorem OnScreen.exists_cell (h : OnScreen r c) :
    ∃ k < MAX_ROWS * MAX_COLS, getCursor r c = k * 2 := by
  obtain ⟨h0, hlt, heven⟩ := h
  refine ⟨(getCursor r c).toNat / 2, ?_, ?_⟩ <;> omega

/-- **Every console with the cursor on the screen shows a text.** -/
theorem shows_textOf (h : OnScreen r c) : Shows r (textOf r c) c := by
  obtain ⟨k, hk, hcur⟩ := h.exists_cell
  have hpos : (textOf r c).pos = k := by
    simp only [textOf]
    omega
  refine ⟨⟨?_, ?_, fun i hi => if_neg ?_⟩, fun i hi => ?_, ?_⟩
  · rw [textOf_top, Nat.zero_mul]
    exact Nat.zero_le _
  · rw [textOf_top, Nat.zero_add, hpos]
    exact hk
  · rw [textOf_top, Nat.zero_add] at hi
    exact Nat.not_lt.mpr hi
  · rw [Text.view, textOf_top, Nat.zero_mul, Nat.zero_add]
    exact (if_pos hi).symm
  · rw [Text.cursor, hpos, textOf_top, Nat.zero_mul, Nat.sub_zero, hcur]

theorem Shows.onScreen (h : Shows r t c) : OnScreen r c := by
  have hlt : t.cursor MAX_COLS < MAX_ROWS * MAX_COLS := Text.cursor_lt h.fits
  have hcur := h.cursor
  unfold OnScreen
  omega

/-! ## Cells -/

theorem Screen.load_set {j : ℕ} (hj : j < VIDEO_SIZE) (y : Byte) :
    (b.set i y).load j = if j = i then y else b.load j := by
  rw [Screen.load_of_lt hj, Screen.load_of_lt hj, Screen.set]

theorem cell_lt (hi : i < MAX_ROWS * MAX_COLS) : i * 2 + 1 < VIDEO_SIZE := by
  have hi : i < 2000 := hi
  exact lt_VIDEO_SIZE (by omega)

theorem cell_setCell (hi : i < MAX_ROWS * MAX_COLS) (y : Byte × Byte) :
    (b.setCell k y).cell i = if i = k then y else b.cell i := by
  have hlt := cell_lt hi
  have h0 : i * 2 ≠ k * 2 + 1 := by omega
  have h1 : i * 2 + 1 ≠ k * 2 := by omega
  have h2 : i * 2 = k * 2 ↔ i = k := by omega
  simp only [Screen.cell, Screen.setCell, Screen.load_set hlt, Screen.load_set (Nat.lt_of_succ_lt hlt),
    h0, h1, h2, if_false, Nat.add_right_cancel_iff]
  split_ifs <;> rfl

theorem cell_scrolled (hi : i < MAX_ROWS * MAX_COLS) :
    (scrolled b).cell i = Text.scroll MAX_COLS MAX_ROWS (0, 0) b.cell i := by
  have hlt := cell_lt hi
  have hi : i < 2000 := hi
  have hoff : (i + 80) * 2 = i * 2 + 160 := by omega
  have hoff' : i * 2 + 160 + 1 = i * 2 + 1 + 160 := by omega
  simp only [Screen.cell, Screen.load_of_lt hlt, Screen.load_of_lt (Nat.lt_of_succ_lt hlt), scrolled,
    Text.scroll, MAX_COLS_eq, MAX_ROWS_eq, hoff, hoff']
  by_cases hrow : i + 80 < 2000
  · have h0 : i * 2 < 3840 := by omega
    have h1 : i * 2 + 1 < 3840 := by omega
    simp only [h0, h1, if_true]
    exact (if_pos hrow).symm
  · have h0 : ¬ i * 2 < 3840 := by omega
    have h1 : ¬ i * 2 + 1 < 3840 := by omega
    have h0' : i * 2 < 4000 := by omega
    have h1' : i * 2 + 1 < 4000 := by omega
    simp only [h0, h1, h0', h1', if_true, if_false]
    exact (if_neg hrow).symm

theorem setCell_of_le {j : Fin VIDEO_SIZE} (hk : k < MAX_ROWS * MAX_COLS)
    (hj : MAX_ROWS * MAX_COLS * 2 ≤ (j : ℕ)) (y : Byte × Byte) : b.setCell k y j = b j := by
  have h0 : (j : ℕ) ≠ k * 2 := by omega
  have h1 : (j : ℕ) ≠ k * 2 + 1 := by omega
  rw [Screen.setCell, Screen.set, if_neg h1, Screen.set, if_neg h0]

theorem scrolled_of_le {j : Fin VIDEO_SIZE} (hj : MAX_ROWS * MAX_COLS * 2 ≤ (j : ℕ)) :
    scrolled b j = b j := by
  have hj : 4000 ≤ (j : ℕ) := hj
  have h0 : ¬ (j : ℕ) < 3840 := by omega
  rw [scrolled, if_neg h0, if_neg (Nat.not_lt.mpr hj)]

/-! ## Going on to a cell -/

/-- The bytes `b` and the cursor at the cell `k`, which may be the first one below the screen. -/
def Console.placed (r : Routing) (b : Screen) (k : ℕ) (c : Console) : Console :=
  if k < MAX_ROWS * MAX_COLS then c.written r b (k * 2)
  else c.written r (scrolled b) ((k - MAX_COLS : ℕ) * 2)

theorem placed_of_lt (hk : k < MAX_ROWS * MAX_COLS) (b : Screen) (c : Console) :
    c.placed r b k = c.written r b (k * 2) := if_pos hk

theorem scroll_placed (b : Screen) (k : ℕ) (c : Console) :
    (let x := handleScrolling r (k * 2) (c.setScreen r b); setCursor r x.1 x.2) = c.placed r b k := by
  rw [putchar_written, Console.placed]
  by_cases hk : k < 2000
  · rw [if_pos (by omega)]
    exact (if_pos hk).symm
  · have hsub : ((k : ℤ) * 2 - 160) = ((k - MAX_COLS : ℕ) : ℤ) * 2 := by
      rw [MAX_COLS_eq]
      omega
    rw [if_neg (by omega), hsub]
    exact (if_neg hk).symm

theorem drawn_placed (hb : ∀ j : Fin VIDEO_SIZE, MAX_ROWS * MAX_COLS * 2 ≤ (j : ℕ) →
    b j = c.screen r j) (k : ℕ) : Drawn r c (c.placed r b k) := by
  unfold Console.placed
  split_ifs
  · exact ⟨b, _, rfl, hb⟩
  · exact ⟨scrolled b, _, rfl, fun j hj => (scrolled_of_le hj).trans (hb j hj)⟩

theorem shows_placed {p : ℕ} (hb : ∀ i, (t.top + MAX_ROWS) * MAX_COLS ≤ i → t.cells i = (0, 0))
    (hcells : ∀ i < MAX_ROWS * MAX_COLS, b.cell i = t.view MAX_COLS i)
    (hp : t.top * MAX_COLS ≤ p) (hp' : p ≤ (t.top + MAX_ROWS) * MAX_COLS) (c : Console) :
    Shows r (t.moveTo MAX_COLS MAX_ROWS p) (c.placed r b (p - t.top * MAX_COLS)) := by
  have hfits := Text.Fits.moveTo (w := MAX_COLS) (h := MAX_ROWS) (by decide) (by decide) hp hp' hb
  have hend : (t.top + MAX_ROWS) * MAX_COLS = t.top * MAX_COLS + MAX_ROWS * MAX_COLS := Nat.add_mul ..
  have hsize : MAX_ROWS * MAX_COLS = 2000 := rfl
  refine ⟨hfits, fun i hi => ?_, ?_⟩
  · rcases hp'.lt_or_eq with hlt | heq
    · rw [Text.moveTo_of_lt (by decide) hlt, placed_of_lt (by omega), Console.written_screen,
        hcells i hi]
      rfl
    · rw [Text.moveTo_of_eq (by decide) heq, Console.placed, if_neg (by omega), Console.written_screen,
        cell_scrolled hi, Text.view_succ hb]
      unfold Text.scroll
      split_ifs with hlt
      · exact hcells _ hlt
      · rfl
  · rcases hp'.lt_or_eq with hlt | heq
    · rw [Text.moveTo_of_lt (by decide) hlt, placed_of_lt (by omega), getCursor_written (by omega)]
      rfl
    · rw [Text.moveTo_of_eq (by decide) heq, Console.placed, if_neg (by omega),
        getCursor_written (by omega), Text.cursor]
      simp only [Nat.succ_mul, Nat.sub_sub]

/-! ## Characters -/

theorem putchar_cursor (hx : x ≠ 0x0A) (hx' : x ≠ 0x08) (hcur : getCursor r c = k * 2)
    (hk : k < MAX_ROWS * MAX_COLS) : putchar r x (-1) (-1) c.attributeVal c =
      some (c.placed r ((c.screen r).setCell k (x, c.attributeVal)) (k + 1)) := by
  have hk : k < 2000 := hk
  have hcell := putCell_eq (b := c.screen r) (i := k * 2) (lt_VIDEO_SIZE (by omega)) x c.attributeVal
  have hneg : ¬ ((0 : ℤ) ≤ -1 ∧ (0 : ℤ) ≤ -1) := by decide
  have hoff : (((k * 2 : ℕ) : ℤ) + 2) = ((k + 1 : ℕ) : ℤ) * 2 := by omega
  have hcur : getCursor r c = (k * 2 : ℕ) := by rw [hcur, Nat.cast_mul, Nat.cast_two]
  simp only [putchar, ite_self, hneg, if_false, hcur, hx, hx', hcell, Option.pure_def,
    Option.bind_eq_bind, Option.bind_some, Option.some.injEq, hoff]
  exact scroll_placed _ _ _

theorem putchar_newline_cursor (hcur : getCursor r c = k * 2) :
    putchar r 0x0A (-1) (-1) c.attributeVal c =
      some (c.placed r (c.screen r) ((k / MAX_COLS + 1) * MAX_COLS)) := by
  have hneg : ¬ ((0 : ℤ) ≤ -1 ∧ (0 : ℤ) ≤ -1) := by decide
  have hdiv : ((k : ℤ) * 2).tdiv (2 * MAX_COLS) = (k / 80 : ℕ) := by
    rw [MAX_COLS_eq, Int.tdiv_eq_ediv_of_nonneg (by omega)]
    omega
  have hoff : getScreenOffset 79 (k / 80 : ℕ) + 2 = (((k / 80 + 1) * 80 : ℕ) : ℤ) * 2 := by
    rw [getScreenOffset, MAX_COLS_eq]
    omega
  simp only [putchar, ite_self, hneg, if_false, if_true, hcur, hdiv, Option.pure_def,
    Option.bind_eq_bind, Option.bind_some, Option.some.injEq, hoff]
  exact scroll_placed _ _ _

theorem putchar_backspace (hcur : getCursor r c = k * 2) (hk : k < MAX_ROWS * MAX_COLS) :
    putchar r 0x08 (-1) (-1) c.attributeVal c = if k = 0 then none else
      some (c.placed r ((c.screen r).setCell (k - 1) (0x20, c.attributeVal)) (k - 1)) := by
  have hk : k < 2000 := hk
  have hneg : ¬ ((0 : ℤ) ≤ -1 ∧ (0 : ℤ) ≤ -1) := by decide
  have hx : (0x08 : Byte) ≠ 0x0A := by decide
  by_cases h0 : k = 0
  · have hstore : (c.screen r).putCell ((0 : ℤ) - 2) 0x20 c.attributeVal = none := rfl
    subst h0
    simp only [putchar, ite_self, hneg, if_false, if_true, hcur, hx, Nat.cast_zero, zero_mul, hstore,
      Option.bind_eq_bind, Option.bind_none]
  · have hcell := putCell_eq (b := c.screen r) (i := (k - 1) * 2) (lt_VIDEO_SIZE (by omega)) 0x20
      c.attributeVal
    have hoff : (k : ℤ) * 2 - 2 = ((k - 1) * 2 : ℕ) := by omega
    have hoff' : (((k - 1) * 2 : ℕ) : ℤ) - 2 + 2 = ((k - 1 : ℕ) : ℤ) * 2 := by omega
    simp only [putchar, ite_self, hneg, if_false, if_true, hcur, hx, hoff, hcell, Option.pure_def,
      Option.bind_eq_bind, Option.bind_some, hoff', h0, Option.some.injEq]
    exact scroll_placed _ _ _

/-! ## Writing to the text -/

/-- The text after a character other than a backspace. -/
def typed (attr : Byte) (t : Text (Byte × Byte)) (x : Byte) : Text (Byte × Byte) :=
  if x = 0x0A then t.newline MAX_COLS MAX_ROWS else t.put MAX_COLS MAX_ROWS (x, attr)

/-- The text after the character before the place has been erased. -/
def erased (attr : Byte) (t : Text (Byte × Byte)) : Text (Byte × Byte) := t.erase (0x20, attr)

theorem Shows.setCell (h : Shows r t c) {y : Byte × Byte}
    (hi : i < MAX_ROWS * MAX_COLS) : ((c.screen r).setCell k y).cell i =
      (t.setCell (t.top * MAX_COLS + k) y).view MAX_COLS i := by
  rw [cell_setCell hi]
  split_ifs with he
  · rw [he]
    exact (Function.update_self (t.top * MAX_COLS + k) y t.cells).symm
  · have hne : t.top * MAX_COLS + i ≠ t.top * MAX_COLS + k := by omega
    exact (h.cells i hi).trans (Function.update_of_ne hne ..).symm

theorem putchar_typed (h : Shows r t c) (hx : x ≠ 0x08) :
    ∃ c', putchar r x (-1) (-1) c.attributeVal c = some c' ∧
      Shows r (typed c.attributeVal t x) c' ∧ Drawn r c c' := by
  have hlt : t.cursor MAX_COLS < MAX_ROWS * MAX_COLS := Text.cursor_lt h.fits
  have hpos := Text.pos_eq h.fits
  have hend : (t.top + MAX_ROWS) * MAX_COLS = t.top * MAX_COLS + MAX_ROWS * MAX_COLS := Nat.add_mul ..
  by_cases hn : x = 0x0A
  · subst hn
    refine ⟨_, putchar_newline_cursor h.cursor, ?_, drawn_placed (fun _ _ => rfl) _⟩
    have hrow : (t.cursor MAX_COLS / MAX_COLS + 1) * MAX_COLS =
        (t.pos / MAX_COLS + 1) * MAX_COLS - t.top * MAX_COLS := by
      rw [hpos, Nat.mul_comm t.top, Nat.mul_add_div (by decide), Nat.add_assoc, Nat.add_mul t.top,
        Nat.mul_comm t.top, Nat.add_sub_cancel_left]
    have hle := Text.newline_le (by decide) h.fits
    rw [hrow, typed, if_pos rfl]
    exact shows_placed h.fits.blank h.cells (by omega) hle.2 c
  · refine ⟨_, putchar_cursor hn hx h.cursor hlt, ?_, drawn_placed (fun j hj => setCell_of_le hlt hj _) _⟩
    have hsub : t.cursor MAX_COLS + 1 = t.pos + 1 - t.top * MAX_COLS := by omega
    rw [hsub, typed, if_neg hn]
    refine shows_placed (h.fits.setCell h.fits.below _).blank (fun i hi => ?_)
      (h.fits.above.trans t.pos.le_succ) h.fits.below c
    rw [h.setCell hi, ← hpos]

/-- **A backspace erases the character before the place.** -/
theorem putchar_erased (h : Shows r t c) (h0 : t.cursor MAX_COLS ≠ 0) :
    ∃ c', putchar r 0x08 (-1) (-1) c.attributeVal c = some c' ∧
      Shows r (erased c.attributeVal t) c' ∧ Drawn r c c' := by
  have hlt : t.cursor MAX_COLS < MAX_ROWS * MAX_COLS := Text.cursor_lt h.fits
  have hlt' : t.cursor MAX_COLS - 1 < MAX_ROWS * MAX_COLS := by omega
  have hpos := Text.pos_eq h.fits
  have hchar := putchar_backspace h.cursor hlt
  rw [if_neg h0, placed_of_lt hlt'] at hchar
  refine ⟨_, hchar, ⟨h.fits.erase h0 _, fun i hi => ?_, ?_⟩, _, _, rfl,
    fun j hj => setCell_of_le hlt' hj _⟩
  · rw [Console.written_screen, h.setCell hi, erased, Text.erase, Text.setCell]
    simp only [Text.view]
    rw [show t.pos - 1 = t.top * MAX_COLS + (t.cursor MAX_COLS - 1) by omega]
  · have hsmall : t.cursor MAX_COLS - 1 < 65536 := hlt'.trans (by decide)
    have hsub : (erased c.attributeVal t).cursor MAX_COLS = t.cursor MAX_COLS - 1 := Nat.sub_right_comm ..
    rw [getCursor_written hsmall, hsub]

/-- At the top left corner the character before it would be written outside the screen. -/
theorem putchar_top (h : Shows r t c) (h0 : t.cursor MAX_COLS = 0) :
    putchar r 0x08 (-1) (-1) c.attributeVal c = none := by
  have hlt : t.cursor MAX_COLS < MAX_ROWS * MAX_COLS := Text.cursor_lt h.fits
  rw [putchar_backspace h.cursor hlt, if_pos h0]

/-! ## `print` -/

theorem print_typed : ∀ (l : List Byte) (t : Text (Byte × Byte)) (c : Console), Shows r t c →
    0x08 ∉ l → ∃ c', l.foldlM (fun c x => putchar r x (-1) (-1) c.attributeVal c) c = some c' ∧
      Shows r (l.foldl (typed c.attributeVal) t) c' ∧ Drawn r c c'
  | [], _, c, h, _ => ⟨c, rfl, h, .refl r c⟩
  | x :: l, t, c, h, hl => by
    obtain ⟨hx, hl⟩ := not_or.mp (List.mem_cons.not.mp hl)
    obtain ⟨c₁, h₁, hs₁, hd₁⟩ := putchar_typed h (Ne.symm hx)
    obtain ⟨c₂, h₂, hs₂, hd₂⟩ := print_typed l _ c₁ hs₁ hl
    rw [hd₁.attributeVal] at hs₂
    exact ⟨c₂, by rw [List.foldlM_cons, h₁]; exact h₂, hs₂, hd₁.trans hd₂⟩

/-- Writing goes on below what has been shown. -/
theorem last_foldl_typed (attr : Byte) : ∀ (l : List Byte) (t : Text (Byte × Byte)),
    t.Last MAX_COLS MAX_ROWS → (l.foldl (typed attr) t).Last MAX_COLS MAX_ROWS
  | [], _, h => h
  | x :: l, t, h => by
    refine last_foldl_typed attr l _ ?_
    unfold typed
    split_ifs
    · exact h.newline (by decide)
    · exact h.put _

theorem last_textOf (h : OnScreen r c) : (textOf r c).Last MAX_COLS MAX_ROWS := by
  obtain ⟨k, hk, hcur⟩ := h.exists_cell
  have hpos : (textOf r c).pos = k := by
    simp only [textOf]
    omega
  have hrow : k / MAX_COLS < MAX_ROWS := Nat.div_lt_of_lt_mul (Nat.mul_comm MAX_ROWS _ ▸ hk)
  rw [Text.Last, hpos, textOf_top]
  omega

/-- The first of the last rows of a text with the place `pos`. -/
def firstRow (pos : ℕ) : ℕ := pos / MAX_COLS + 1 - MAX_ROWS

/-- **The console is a scrolling window.** `print` shows the last rows of the text that goes on after
the rows on the screen, and changes nothing but the bytes of the screen and the cursor. -/
theorem print_window (message : CStr) (hc : OnScreen r c) (hb : 0x08 ∉ message.toList) :
    ∃ c' t, print r message c = some c' ∧
      t = message.toList.foldl (typed c.attributeVal) (textOf r c) ∧
      (∀ i < MAX_ROWS * MAX_COLS,
        (c'.screen r).cell i = t.cells (firstRow t.pos * MAX_COLS + i)) ∧
      getCursor r c' = (t.pos - firstRow t.pos * MAX_COLS : ℕ) * 2 ∧ Drawn r c c' := by
  obtain ⟨c', hprint, hs, hd⟩ := print_typed message.toList _ c (shows_textOf hc) hb
  have hlast := last_foldl_typed c.attributeVal message.toList _ (last_textOf hc)
  have htop : Text.top _ = firstRow _ := hlast
  refine ⟨c', _, hprint, rfl, fun i hi => ?_, ?_, hd⟩
  · rw [hs.cells i hi, Text.view, htop]
  · rw [hs.cursor, Text.cursor, htop]

/-- A console with nothing on the screen. -/
def blankConsole : Console where
  video := fun _ => 0
  hwCursor := 0
  terminalList := fun _ => ⟨0, fun _ => 0, .ofChars ['/'], 19⟩
  attributeVal := 0x07
  currPath := .ofChars ['/']
  currDir := 19

/-- With the cursor on the last place but one. -/
def fullConsole : Console := { blankConsole with hwCursor := 1998 }

/-- The line wraps, and the screen scrolls twice. -/
theorem print_window_scrolled : ∃ c' t,
    print ⟨0, 0⟩ (.ofChars "abc\nde".toList) fullConsole = some c' ∧
      t = (CStr.ofChars "abc\nde".toList).toList.foldl (typed 0x07) (textOf ⟨0, 0⟩ fullConsole) ∧
      (∀ i < MAX_ROWS * MAX_COLS,
        (c'.screen ⟨0, 0⟩).cell i = t.cells (firstRow t.pos * MAX_COLS + i)) ∧
      getCursor ⟨0, 0⟩ c' = (t.pos - firstRow t.pos * MAX_COLS : ℕ) * 2 ∧
      Drawn ⟨0, 0⟩ fullConsole c' :=
  print_window (.ofChars "abc\nde".toList) (by decide) (by decide)

end AdvancedOS
