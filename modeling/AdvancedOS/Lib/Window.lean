import Mathlib.Data.Nat.Basic
import Mathlib.Logic.Function.Basic
import Mathlib.Order.Lattice

/-!
# A window on a text

`Text α` is a text of cells that goes on for ever, with a place in it and the first row that a window
of `h` rows of `w` cells shows. The window moves down when the place leaves it below.

* `Text.put`, `Text.newline`, `Text.erase`: writing at the place, going to the next row, and going
  back by a cell;
* `Text.Fits`: the place is in the window, and nothing has been written below it;
* `Text.moveTo_of_lt`, `Text.moveTo_of_eq`: going on by a cell or to the next row moves the window by
  a row at most;
* `Text.view_succ`: **the window one row further down is the old one, scrolled**;
* `Text.Last`, `Text.Last.moveTo`: **without going back the window shows the last rows.**
-/

open Function (update)

/-- A text, a place in it, and the first row that is shown. -/
structure Text (α : Type*) where
  cells : ℕ → α
  pos : ℕ
  top : ℕ

namespace Text

variable {α : Type*} {w h p i : ℕ} {a blank : α} {t : Text α}

/-- Go to the place `p`; the window moves down if it has to. -/
def moveTo (w h p : ℕ) (t : Text α) : Text α := ⟨t.cells, p, max t.top (p / w + 1 - h)⟩

/-- Replace the cell at `p`. -/
def setCell (p : ℕ) (a : α) (t : Text α) : Text α := ⟨update t.cells p a, t.pos, t.top⟩

/-- Write a cell. -/
def put (w h : ℕ) (a : α) (t : Text α) : Text α := (t.setCell t.pos a).moveTo w h (t.pos + 1)

/-- Go to the start of the next row. -/
def newline (w h : ℕ) (t : Text α) : Text α := t.moveTo w h ((t.pos / w + 1) * w)

/-- Go back by a cell and write `a` there; the window stays. -/
def erase (a : α) (t : Text α) : Text α := ⟨update t.cells (t.pos - 1) a, t.pos - 1, t.top⟩

/-- The cells of the window. -/
def view (w : ℕ) (t : Text α) (i : ℕ) : α := t.cells (t.top * w + i)

/-- The place in the window. -/
def cursor (w : ℕ) (t : Text α) : ℕ := t.pos - t.top * w

/-- The place is in the window, and the text below is blank. -/
structure Fits (w h : ℕ) (blank : α) (t : Text α) : Prop where
  above : t.top * w ≤ t.pos
  below : t.pos < (t.top + h) * w
  blank : ∀ i, (t.top + h) * w ≤ i → t.cells i = blank

/-- The cells of a window after a row has been scrolled out. -/
def scroll (w h : ℕ) (blank : α) (v : ℕ → α) (i : ℕ) : α := if i + w < h * w then v (i + w) else blank

theorem pos_eq (ht : t.Fits w h blank) : t.pos = t.top * w + t.cursor w :=
  (Nat.add_sub_cancel' ht.above).symm

theorem cursor_lt (ht : t.Fits w h blank) : t.cursor w < h * w := by
  have hpos := pos_eq ht
  have hbelow := ht.below
  rw [Nat.add_mul] at hbelow
  omega

/-! ## Moving on -/

theorem moveTo_of_lt (hw : 0 < w) (hp : p < (t.top + h) * w) : t.moveTo w h p = ⟨t.cells, p, t.top⟩ := by
  have hrow : p / w < t.top + h := (Nat.div_lt_iff_lt_mul hw).mpr hp
  rw [moveTo, max_eq_left (by omega)]

theorem moveTo_of_eq (hw : 0 < w) (hp : p = (t.top + h) * w) :
    t.moveTo w h p = ⟨t.cells, p, t.top + 1⟩ := by
  have hrow : p / w = t.top + h := by rw [hp, Nat.mul_div_cancel _ hw]
  rw [moveTo, max_eq_right (by omega), hrow]
  congr
  omega

theorem view_succ (hb : ∀ i, (t.top + h) * w ≤ i → t.cells i = blank) (p : ℕ) :
    view w ⟨t.cells, p, t.top + 1⟩ i = scroll w h blank (t.view w) i := by
  have hoff : (t.top + 1) * w + i = t.top * w + (i + w) := by
    rw [Nat.succ_mul]
    omega
  have hend : (t.top + h) * w = t.top * w + h * w := Nat.add_mul ..
  simp only [view, hoff]
  unfold scroll
  split_ifs with hlt
  · rfl
  · exact hb _ (by omega)

theorem Fits.moveTo (hw : 0 < w) (hh : 0 < h) (hp : t.top * w ≤ p) (hp' : p ≤ (t.top + h) * w)
    (hb : ∀ i, (t.top + h) * w ≤ i → t.cells i = blank) : (t.moveTo w h p).Fits w h blank := by
  have hend : (t.top + 1 + h) * w = (t.top + h) * w + w := by
    rw [Nat.add_right_comm, Nat.succ_mul]
  rcases hp'.lt_or_eq with hlt | heq
  · rw [moveTo_of_lt hw hlt]
    exact ⟨hp, hlt, hb⟩
  · rw [moveTo_of_eq hw heq]
    have hle : (t.top + 1) * w ≤ (t.top + h) * w := Nat.mul_le_mul_right w (by omega)
    exact ⟨heq ▸ hle, by simp only; omega, fun i hi => hb i (by simp only at hi; omega)⟩

theorem Fits.setCell (ht : t.Fits w h blank) (hp : p < (t.top + h) * w) (a : α) :
    (t.setCell p a).Fits w h blank := by
  refine ⟨ht.above, ht.below, fun i hi => ?_⟩
  have hne : i ≠ p := fun he => absurd hp (not_lt.mpr (he ▸ hi))
  exact (Function.update_of_ne hne ..).trans (ht.blank i hi)

theorem newline_le (hw : 0 < w) (ht : t.Fits w h blank) :
    t.pos < (t.pos / w + 1) * w ∧ (t.pos / w + 1) * w ≤ (t.top + h) * w := by
  refine ⟨Nat.lt_mul_of_div_lt (Nat.lt_succ_self _) hw, Nat.mul_le_mul_right w ?_⟩
  exact (Nat.div_lt_iff_lt_mul hw).mpr ht.below

theorem Fits.put (hw : 0 < w) (hh : 0 < h) (ht : t.Fits w h blank) (a : α) :
    (t.put w h a).Fits w h blank := by
  have hs := ht.setCell ht.below a
  exact Fits.moveTo hw hh (ht.above.trans t.pos.le_succ) ht.below hs.blank

theorem Fits.newline (hw : 0 < w) (hh : 0 < h) (ht : t.Fits w h blank) :
    (t.newline w h).Fits w h blank :=
  Fits.moveTo hw hh (ht.above.trans (newline_le hw ht).1.le) (newline_le hw ht).2 ht.blank

theorem Fits.erase (ht : t.Fits w h blank) (hp : t.cursor w ≠ 0) (a : α) :
    (t.erase a).Fits w h blank := by
  have hpos := pos_eq ht
  have hbelow := ht.below
  refine ⟨by simp only [Text.erase]; omega, by simp only [Text.erase]; omega, fun i hi => ?_⟩
  have hi : (t.top + h) * w ≤ i := hi
  exact (Function.update_of_ne (by omega) ..).trans (ht.blank i hi)

/-! ## The last rows -/

/-- The window shows the last rows, down to that of the place. -/
def Last (w h : ℕ) (t : Text α) : Prop := t.top = t.pos / w + 1 - h

theorem Last.moveTo (hl : t.Last w h) (hp : t.pos ≤ p) : (t.moveTo w h p).Last w h := by
  have hrow : t.pos / w ≤ p / w := Nat.div_le_div_right hp
  have hl : t.top = t.pos / w + 1 - h := hl
  refine max_eq_right ?_
  omega

theorem Last.put (hl : t.Last w h) (a : α) : (t.put w h a).Last w h :=
  Last.moveTo (t := t.setCell t.pos a) hl t.pos.le_succ

theorem Last.newline (hw : 0 < w) (hl : t.Last w h) : (t.newline w h).Last w h :=
  hl.moveTo (Nat.lt_mul_of_div_lt (Nat.lt_succ_self _) hw).le

end Text
