import AdvancedOS.Lib.Bytes
import Mathlib.Logic.Function.Iterate

/-!
# box.asm

The program draws a letter at its place, moves on along the sides of the screen, and never returns.
What is drawn is left out here.

* `deal_lr`, `deal_ud`, `deal_rl`, `deal_du`: the next place on each of the sides; `drawBox`: a round;
* `drawBox_iterate`: what a program has after any number of rounds;
* `frame_drawn`: **every place is one of the frame, and the program comes to each place of the frame
  again and again, at most 206 rounds later.**
-/

namespace AdvancedOS.Box

/-! ## The program -/

def MAX_X : Byte := 79
def MAX_Y : Byte := 24
def MIN_X : Byte := 0
def MIN_Y : Byte := 0

/-- The data segment. -/
structure Data where
  posx : Byte
  posy : Byte
  char : Byte
  color : Byte
  drt : Byte
  deriving DecidableEq

def deal_lr (v : Data) : Data :=
  let v := { v with posx := v.posx + 1 }
  if v.posx ≠ MAX_X then v else { v with drt := 2 }

def deal_ud (v : Data) : Data :=
  let v := { v with posy := v.posy + 1 }
  if v.posy ≠ MAX_Y then v else { v with drt := 3 }

def deal_rl (v : Data) : Data :=
  let v := { v with posx := v.posx - 1 }
  if v.posx ≠ MIN_X then v else { v with drt := 4 }

def deal_du (v : Data) : Data :=
  let v := { v with posy := v.posy - 1 }
  if v.posy ≠ MIN_Y then v
  else
    let v := { v with drt := 1, char := v.char + 1 }
    if v.char ≠ 0x5a then v else { v with char := 0x41 }

def deal (v : Data) : Data :=
  if v.drt = 1 then deal_lr v
  else if v.drt = 2 then deal_ud v
  else if v.drt = 3 then deal_rl v
  else if v.drt = 4 then deal_du v
  else v

/-- The next colour. -/
def recolor (c : Byte) : Byte := if c + 1 ≠ 8 then c + 1 else 1

/-- One round of `draw_box`. -/
def drawBox (v : Data) : Data :=
  let v := deal v
  { v with color := recolor v.color }

/-- What the assembler puts into the data segment. -/
def datadef : Data := ⟨0, 0, 0x41, 7, 1⟩

/-! ## Rounds -/

variable {k n : ℕ} {c d : Byte}

/-- The place that is `k` steps from the first one, and the direction there. -/
def place (k : ℕ) (char color : Byte) : Data :=
  if k < 79 then ⟨.ofNat 8 k, 0, char, color, 1⟩
  else if k < 103 then ⟨79, .ofNat 8 (k - 79), char, color, 2⟩
  else if k < 182 then ⟨.ofNat 8 (182 - k), 24, char, color, 3⟩
  else ⟨0, .ofNat 8 (206 - k), char, color, 4⟩

theorem place_lr (h : k < 79) : place k c d = ⟨.ofNat 8 k, 0, c, d, 1⟩ := if_pos h

theorem place_ud (h : 79 ≤ k) (h' : k < 103) : place k c d = ⟨79, .ofNat 8 (k - 79), c, d, 2⟩ := by
  rw [place, if_neg (Nat.not_lt.mpr h), if_pos h']

theorem place_rl (h : 103 ≤ k) (h' : k < 182) :
    place k c d = ⟨.ofNat 8 (182 - k), 24, c, d, 3⟩ := by
  rw [place, if_neg (by omega), if_neg (Nat.not_lt.mpr h), if_pos h']

theorem place_du (h : 182 ≤ k) : place k c d = ⟨0, .ofNat 8 (206 - k), c, d, 4⟩ := by
  rw [place, if_neg (by omega), if_neg (by omega), if_neg (Nat.not_lt.mpr h)]

/-- The next letter. -/
def nextChar (c : Byte) : Byte := if c + 1 ≠ 0x5a then c + 1 else 0x41

section Sides

variable {x y : Byte}

theorem drawBox_lr : drawBox ⟨x, y, c, d, 1⟩ =
    ⟨x + 1, y, c, recolor d, if x + 1 ≠ MAX_X then 1 else 2⟩ := by
  have h : deal ⟨x, y, c, d, 1⟩ = deal_lr ⟨x, y, c, d, 1⟩ := rfl
  simp only [drawBox, h, deal_lr]
  split_ifs <;> rfl

theorem drawBox_ud : drawBox ⟨x, y, c, d, 2⟩ =
    ⟨x, y + 1, c, recolor d, if y + 1 ≠ MAX_Y then 2 else 3⟩ := by
  have h : deal ⟨x, y, c, d, 2⟩ = deal_ud ⟨x, y, c, d, 2⟩ := rfl
  simp only [drawBox, h, deal_ud]
  split_ifs <;> rfl

theorem drawBox_rl : drawBox ⟨x, y, c, d, 3⟩ =
    ⟨x - 1, y, c, recolor d, if x - 1 ≠ MIN_X then 3 else 4⟩ := by
  have h : deal ⟨x, y, c, d, 3⟩ = deal_rl ⟨x, y, c, d, 3⟩ := rfl
  simp only [drawBox, h, deal_rl]
  split_ifs <;> rfl

theorem drawBox_du : drawBox ⟨x, y, c, d, 4⟩ = if y - 1 ≠ MIN_Y then ⟨x, y - 1, c, recolor d, 4⟩
    else ⟨x, y - 1, nextChar c, recolor d, 1⟩ := by
  have h : deal ⟨x, y, c, d, 4⟩ = deal_du ⟨x, y, c, d, 4⟩ := rfl
  simp only [drawBox, h, deal_du, nextChar]
  split_ifs <;> rfl

end Sides

theorem drawBox_place (hk : k < 205) :
    drawBox (place k c d) = place (k + 1) c (recolor d) := by
  rcases Nat.lt_or_ge k 79 with h1 | h1
  · have hx : BitVec.ofNat 8 k + 1 = .ofNat 8 (k + 1) := by bv_omega
    rw [place_lr h1, drawBox_lr, hx]
    rcases Nat.lt_or_ge (k + 1) 79 with h | h
    · rw [place_lr h, if_pos (by rw [MAX_X]; bv_omega)]
    · obtain rfl : k = 78 := by omega
      rfl
  rcases Nat.lt_or_ge k 103 with h2 | h2
  · have hy : BitVec.ofNat 8 (k - 79) + 1 = .ofNat 8 (k + 1 - 79) := by bv_omega
    rw [place_ud h1 h2, drawBox_ud, hy]
    rcases Nat.lt_or_ge (k + 1) 103 with h | h
    · rw [place_ud (by omega) h, if_pos (by rw [MAX_Y]; bv_omega)]
    · obtain rfl : k = 102 := by omega
      rfl
  rcases Nat.lt_or_ge k 182 with h3 | h3
  · have hx : BitVec.ofNat 8 (182 - k) - 1 = .ofNat 8 (182 - (k + 1)) := by bv_omega
    rw [place_rl h2 h3, drawBox_rl, hx]
    rcases Nat.lt_or_ge (k + 1) 182 with h | h
    · rw [place_rl (by omega) h, if_pos (by rw [MIN_X]; bv_omega)]
    · obtain rfl : k = 181 := by omega
      rfl
  · have hy : BitVec.ofNat 8 (206 - k) - 1 = .ofNat 8 (206 - (k + 1)) := by bv_omega
    rw [place_du h3, drawBox_du, hy, place_du (by omega), if_pos (by rw [MIN_Y]; bv_omega)]

theorem drawBox_last : drawBox (place 205 c d) = place 0 (nextChar c) (recolor d) := by
  rw [place_du (by decide), drawBox_du]
  rfl

theorem drawBox_iterate (n : ℕ) :
    drawBox^[n] datadef = place (n % 206) (nextChar^[n / 206] 0x41) (recolor^[n] 7) := by
  induction n with
  | zero => rfl
  | succ n ih =>
    rw [Function.iterate_succ_apply', ih, Function.iterate_succ_apply' recolor]
    by_cases h : n % 206 = 205
    · have hmod : (n + 1) % 206 = 0 := by omega
      have hdiv : (n + 1) / 206 = n / 206 + 1 := by omega
      rw [h, drawBox_last, hmod, hdiv, Function.iterate_succ_apply']
    · have hmod : (n + 1) % 206 = n % 206 + 1 := by omega
      have hdiv : (n + 1) / 206 = n / 206 := by omega
      rw [drawBox_place (by omega), hmod, hdiv]

/-! ## The frame -/

/-- The place is one of the frame around the screen. -/
def OnFrame (x y : Byte) : Prop :=
  x ≤ MAX_X ∧ y ≤ MAX_Y ∧ (x = MIN_X ∨ x = MAX_X ∨ y = MIN_Y ∨ y = MAX_Y)

theorem place_onFrame (hk : k < 206) : OnFrame (place k c d).posx (place k c d).posy := by
  simp only [OnFrame, MAX_X, MAX_Y, MIN_X, MIN_Y]
  unfold place
  split_ifs with h1 h2 h3 <;> dsimp only
  · exact ⟨by bv_omega, by decide, .inr (.inr (.inl rfl))⟩
  · exact ⟨by decide, by bv_omega, .inr (.inl rfl)⟩
  · exact ⟨by bv_omega, by decide, .inr (.inr (.inr rfl))⟩
  · exact ⟨by decide, by bv_omega, .inl rfl⟩

theorem exists_place {x y : Byte} (h : OnFrame x y) :
    ∃ k < 206, ∀ c d, (place k c d).posx = x ∧ (place k c d).posy = y := by
  obtain ⟨hx, hy, h⟩ := h
  simp only [MAX_X, MAX_Y, MIN_X, MIN_Y] at hx hy h
  by_cases h0 : y = 0 ∧ x ≠ 79
  · refine ⟨x.toNat, by bv_omega, fun c d => ?_⟩
    rw [place_lr (by bv_omega)]
    exact ⟨by bv_omega, h0.1.symm⟩
  by_cases h1 : x = 79 ∧ y ≠ 24
  · refine ⟨y.toNat + 79, by bv_omega, fun c d => ?_⟩
    rw [place_ud (by omega) (by bv_omega)]
    exact ⟨h1.1.symm, by bv_omega⟩
  by_cases h2 : y = 24 ∧ x ≠ 0
  · refine ⟨182 - x.toNat, by bv_omega, fun c d => ?_⟩
    rw [place_rl (by bv_omega) (by bv_omega)]
    exact ⟨by bv_omega, h2.1.symm⟩
  · refine ⟨206 - y.toNat, by bv_omega, fun c d => ?_⟩
    rw [place_du (by bv_omega)]
    exact ⟨by bv_omega, by bv_omega⟩

theorem nextChar_bounds (hc : 0x41 ≤ c ∧ c < 0x5a) : 0x41 ≤ nextChar c ∧ nextChar c < 0x5a := by
  unfold nextChar
  split_ifs <;> constructor <;> bv_omega

theorem recolor_bounds (hc : 1 ≤ c ∧ c < 8) : 1 ≤ recolor c ∧ recolor c < 8 := by
  unfold recolor
  split_ifs <;> constructor <;> bv_omega

/-- **The frame is drawn again and again, and nothing else.** -/
theorem frame_drawn (n : ℕ) :
    OnFrame (drawBox^[n] datadef).posx (drawBox^[n] datadef).posy ∧
    (0x41 ≤ (drawBox^[n] datadef).char ∧ (drawBox^[n] datadef).char < 0x5a) ∧
    (1 ≤ (drawBox^[n] datadef).color ∧ (drawBox^[n] datadef).color < 8) ∧
    ∀ x y, OnFrame x y → ∃ m < n + 206, n ≤ m ∧
      (drawBox^[m] datadef).posx = x ∧ (drawBox^[m] datadef).posy = y := by
  have hchar : ∀ c d, (place (n % 206) c d).char = c ∧ (place (n % 206) c d).color = d := by
    intro c d
    unfold place
    split_ifs <;> exact ⟨rfl, rfl⟩
  have hc : ∀ k, 0x41 ≤ nextChar^[k] 0x41 ∧ nextChar^[k] 0x41 < (0x5a : Byte) := fun k =>
    Function.Iterate.rec (fun c : Byte => 0x41 ≤ c ∧ c < 0x5a) (by decide)
      (fun _ h => nextChar_bounds h) k
  have hd : ∀ k, 1 ≤ recolor^[k] 7 ∧ recolor^[k] 7 < (8 : Byte) := fun k =>
    Function.Iterate.rec (fun c : Byte => 1 ≤ c ∧ c < 8) (by decide) (fun _ h => recolor_bounds h) k
  refine ⟨?_, ?_, ?_, fun x y h => ?_⟩
  · rw [drawBox_iterate]
    exact place_onFrame (Nat.mod_lt _ (by decide))
  · rw [drawBox_iterate, (hchar _ _).1]
    exact hc _
  · rw [drawBox_iterate, (hchar _ _).2]
    exact hd _
  · obtain ⟨k, hk, hplace⟩ := exists_place h
    refine ⟨n + (k + 206 - n % 206) % 206, by omega, by omega, ?_⟩
    have hmod : (n + (k + 206 - n % 206) % 206) % 206 = k := by omega
    rw [drawBox_iterate, hmod]
    exact hplace _ _

end AdvancedOS.Box
