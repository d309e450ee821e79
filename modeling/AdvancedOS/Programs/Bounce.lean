import AdvancedOS.Lib.Bytes
import Mathlib.Data.Nat.ModEq
import Mathlib.Logic.Function.Iterate

/-!
# prg1.asm to prg4.asm

Each of the programs moves one or two characters through its quarter of the screen, and turns them
around at the sides. They are the same up to their constants and the colours. What is drawn is left
out here.

* `onemove`: the next place of a character; `Prg.round`, `Prg.mainloop`: the loop around it;
* `Sprite.distX`, `Sprite.distY`: how far a character is from the sides that it moves towards;
* `move_of_corner`, `move_of_not_corner`: what a move does in a corner, and elsewhere;
* `mainloop_leaves`: **wherever the characters start in the quarter, and in whatever direction, each
  of them runs into a corner and leaves the quarter before the program returns.**
-/

namespace AdvancedOS.Bounce

/-! ## The programs -/

inductive Prg where
  | prg1 | prg2 | prg3 | prg4
  deriving DecidableEq

namespace Prg

def minX : Prg → BitVec 16
  | prg1 | prg3 => 0
  | prg2 | prg4 => 41

def maxX : Prg → BitVec 16
  | prg1 | prg3 => 40
  | prg2 | prg4 => 80

def minY : Prg → BitVec 16
  | prg1 | prg2 => 0
  | prg3 | prg4 => 13

def maxY : Prg → BitVec 16
  | prg1 | prg2 => 12
  | prg3 | prg4 => 25

/-- The next colour. -/
def recolor : Prg → Byte → Byte
  | prg1, c => c
  | prg2, c | prg4, c => c + 1
  | prg3, c => if (c + 1).slt 0b1000 then c + 1 else 1

/-- The jump at the end of `mainloop`: `jge` or `jne`. -/
def again : Prg → BitVec 16 → Bool
  | prg1, cnt => decide (0 ≤ cnt.toInt)
  | _, cnt => cnt != 0

end Prg

def Dn_Rt : Byte := 1
def Up_Rt : Byte := 2
def Up_Lt : Byte := 3
def Dn_Lt : Byte := 4

/-- What a program keeps of a character. -/
structure Sprite where
  px : BitVec 16
  py : BitVec 16
  drt : Byte
  color : Byte
  deriving DecidableEq

variable (p : Prg)

def dnRt (s : Sprite) : Sprite :=
  let s := { s with px := s.px + 1, py := s.py + 1 }
  if s.py = p.maxY then { s with py := p.maxY - 2, drt := Up_Rt }
  else if s.px = p.maxX then { s with px := p.maxX - 2, drt := Dn_Lt }
  else s

def upRt (s : Sprite) : Sprite :=
  let s := { s with px := s.px + 1, py := s.py - 1 }
  if s.px = p.maxX then { s with px := p.maxX - 2, drt := Up_Lt }
  else if s.py = p.minY - 1 then { s with py := p.minY + 1, drt := Dn_Rt }
  else s

def upLt (s : Sprite) : Sprite :=
  let s := { s with px := s.px - 1, py := s.py - 1 }
  if s.py = p.minY - 1 then { s with py := p.minY + 1, drt := Dn_Lt }
  else if s.px = p.minX - 1 then { s with px := p.minX + 1, drt := Up_Rt }
  else s

def dnLt (s : Sprite) : Sprite :=
  let s := { s with px := s.px - 1, py := s.py + 1 }
  if s.px = p.minX - 1 then { s with px := p.minX + 1, drt := Dn_Rt }
  else if s.py = p.maxY then { s with py := p.maxY - 2, drt := Up_Lt }
  else s

def onemove (s : Sprite) : Sprite :=
  if s.drt = 1 then dnRt p s
  else if s.drt = 2 then upRt p s
  else if s.drt = 3 then upLt p s
  else if s.drt = 4 then dnLt p s
  else s

/-- The macro `OneChar`. -/
def oneChar (s : Sprite) : Sprite := onemove p { s with color := p.recolor s.color }

/-- The data segment. -/
structure Data where
  sprites : List Sprite
  cnt : BitVec 16

/-- One round of `mainloop`. -/
def Prg.round (v : Data) : Data := ⟨v.sprites.map (oneChar p), v.cnt - 1⟩

/-- `mainloop`, with at most `n` rounds: how many rounds it takes, and what they leave. -/
def Prg.mainloop : ℕ → Data → Option (ℕ × Data)
  | 0, _ => none
  | n + 1, v =>
    let v := p.round v
    if p.again v.cnt then (mainloop n v).map fun r => (r.1 + 1, r.2) else some (1, v)

/-- What the assembler puts into the data segment. -/
def Prg.data : Prg → Data
  | prg1 => ⟨[⟨0, 0, Dn_Rt, 0b111⟩], 1000⟩
  | prg2 => ⟨[⟨50, 1, Dn_Rt, 0b101⟩, ⟨70, 1, Dn_Lt, 0b10⟩], 1000⟩
  | prg3 => ⟨[⟨1, 13, Dn_Rt, 0b111⟩], 1000⟩
  | prg4 => ⟨[⟨50, 13, Dn_Rt, 0b101⟩, ⟨70, 24, Up_Lt, 0b10⟩], 1000⟩

/-! ## Moves -/

variable {p} {s t : Sprite} {v : Data} {n k : ℕ}

/-- The character is in the quarter. -/
structure Inside (p : Prg) (s : Sprite) : Prop where
  minX_le : p.minX ≤ s.px
  lt_maxX : s.px < p.maxX
  minY_le : p.minY ≤ s.py
  lt_maxY : s.py < p.maxY

/-- The character moves in one of the four directions. -/
def Sprite.Headed (s : Sprite) : Prop := s.drt = 1 ∨ s.drt = 2 ∨ s.drt = 3 ∨ s.drt = 4

/-- The character moves to the right. -/
def Sprite.right (s : Sprite) : Bool := s.drt = 1 ∨ s.drt = 2

/-- The character moves downwards. -/
def Sprite.down (s : Sprite) : Bool := s.drt = 1 ∨ s.drt = 4

/-- How far it is from `x` to the last coordinate of those from `a` to `b`. -/
def dist (a b : BitVec 16) (up : Bool) (x : BitVec 16) : ℕ :=
  if up then b.toNat - 1 - x.toNat else x.toNat - a.toNat

/-- How many columns there are up to the side that the character moves towards. -/
def Sprite.distX (p : Prg) (s : Sprite) : ℕ := dist p.minX p.maxX s.right s.px

/-- How many rows there are. -/
def Sprite.distY (p : Prg) (s : Sprite) : ℕ := dist p.minY p.maxY s.down s.py

/-- The number of columns, less one. -/
def Prg.width (p : Prg) : ℕ := p.maxX.toNat - p.minX.toNat - 1

/-- The number of rows, less one. -/
def Prg.height (p : Prg) : ℕ := p.maxY.toNat - p.minY.toNat - 1

/-- A distance becomes smaller by one, and behind the side it is the largest. -/
def Rolls (w d d' : ℕ) : Prop := d' + 1 = d ∨ d = 0 ∧ d' + 1 = w

/-! ### One coordinate -/

section Axis

variable {a b x x' : BitVec 16} {up up' : Bool}

/-- The coordinate `x` moves to `x'`, and stays between the sides. -/
structure Along (a b x : BitVec 16) (up : Bool) (x' : BitVec 16) (up' : Bool) : Prop where
  le : a ≤ x'
  lt : x' < b
  rolls : Rolls (b.toNat - a.toNat - 1) (dist a b up x) (dist a b up' x')

theorem along_up (ha : a ≤ x) (hb : x < b) (h : x + 1 ≠ b) : Along a b x true (x + 1) true := by
  have hx : (x + 1).toNat = x.toNat + 1 := by bv_omega
  refine ⟨by bv_omega, by bv_omega, .inl ?_⟩
  simp only [dist, if_true, hx]
  bv_omega

theorem turn_up (hb : x < b) (hw : a.toNat + 3 ≤ b.toNat) (h : x + 1 = b) :
    Along a b x true (b - 2) false := by
  have hx : (b - 2).toNat = b.toNat - 2 := by bv_omega
  refine ⟨by bv_omega, by bv_omega, .inr ⟨?_, ?_⟩⟩
  · simp only [dist, if_true]
    bv_omega
  · simp only [dist, hx, Bool.false_eq_true, if_false]
    omega

theorem along_down (ha : a ≤ x) (hb : x < b) (h : x - 1 ≠ a - 1) :
    Along a b x false (x - 1) false := by
  have hx : (x - 1).toNat = x.toNat - 1 := by bv_omega
  refine ⟨by bv_omega, by bv_omega, .inl ?_⟩
  simp only [dist, hx, Bool.false_eq_true, if_false]
  bv_omega

theorem turn_down (ha : a ≤ x) (hw : a.toNat + 3 ≤ b.toNat) (h : x - 1 = a - 1) :
    Along a b x false (a + 1) true := by
  have hx : (a + 1).toNat = a.toNat + 1 := by bv_omega
  refine ⟨by bv_omega, by bv_omega, .inr ⟨?_, ?_⟩⟩
  · simp only [dist, Bool.false_eq_true, if_false]
    bv_omega
  · simp only [dist, if_true, hx]
    omega

theorem dist_up_iff (hb : x < b) : dist a b true x = 0 ↔ x + 1 = b := by
  simp only [dist, if_true]
  constructor <;> intro h <;> bv_omega

theorem dist_down_iff (ha : a ≤ x) : dist a b false x = 0 ↔ x - 1 = a - 1 := by
  simp only [dist, Bool.false_eq_true, if_false]
  constructor <;> intro h <;> bv_omega

end Axis

/-! ### A character -/

/-- The character is in a corner, and moves towards both of its sides. -/
def Sprite.Corner (p : Prg) (s : Sprite) : Prop := s.distX p = 0 ∧ s.distY p = 0

/-- What a move does to a character that is not in a corner. -/
structure Moved (p : Prg) (s t : Sprite) : Prop where
  inside : Inside p t
  headed : t.Headed
  distX : Rolls p.width (s.distX p) (t.distX p)
  distY : Rolls p.height (s.distY p) (t.distY p)

theorem Prg.sides (p : Prg) : p.minX.toNat + 3 ≤ p.maxX.toNat ∧ p.minY.toNat + 3 ≤ p.maxY.toNat := by
  cases p <;> decide

theorem Moved.of (hx : Along p.minX p.maxX s.px s.right t.px t.right)
    (hy : Along p.minY p.maxY s.py s.down t.py t.down) (ht : t.Headed) : Moved p s t :=
  ⟨⟨hx.le, hx.lt, hy.le, hy.lt⟩, ht, hx.rolls, hy.rolls⟩

theorem oneChar_dnRt (x y : BitVec 16) (c : Byte) :
    oneChar p ⟨x, y, 1, c⟩ = dnRt p ⟨x, y, 1, p.recolor c⟩ := by
  simp [oneChar, onemove]

theorem oneChar_upRt (x y : BitVec 16) (c : Byte) :
    oneChar p ⟨x, y, 2, c⟩ = upRt p ⟨x, y, 2, p.recolor c⟩ := by
  simp [oneChar, onemove]

theorem oneChar_upLt (x y : BitVec 16) (c : Byte) :
    oneChar p ⟨x, y, 3, c⟩ = upLt p ⟨x, y, 3, p.recolor c⟩ := by
  simp [oneChar, onemove]

theorem oneChar_dnLt (x y : BitVec 16) (c : Byte) :
    oneChar p ⟨x, y, 4, c⟩ = dnLt p ⟨x, y, 4, p.recolor c⟩ := by
  simp [oneChar, onemove]

/-- **Elsewhere than in a corner a move stays in the quarter.** -/
theorem move_of_not_corner (hs : Inside p s) (hd : s.Headed) (hc : ¬ s.Corner p) :
    Moved p s (oneChar p s) := by
  obtain ⟨hx, hx', hy, hy'⟩ := hs
  obtain ⟨hw, hh⟩ := p.sides
  obtain ⟨px, py, drt, color⟩ := s
  have hd : drt = 1 ∨ drt = 2 ∨ drt = 3 ∨ drt = 4 := hd
  rcases hd with rfl | rfl | rfl | rfl
  · have hc : ¬ (px + 1 = p.maxX ∧ py + 1 = p.maxY) := fun h =>
      hc ⟨(dist_up_iff hx').mpr h.1, (dist_up_iff hy').mpr h.2⟩
    simp only [oneChar_dnRt, dnRt]
    split_ifs with h h'
    · exact .of (along_up hx hx' fun hn => hc ⟨hn, h⟩) (turn_up hy' hh h) (.inr (.inl rfl))
    · exact .of (turn_up hx' hw h') (along_up hy hy' h) (.inr (.inr (.inr rfl)))
    · exact .of (along_up hx hx' h') (along_up hy hy' h) (.inl rfl)
  · have hc : ¬ (px + 1 = p.maxX ∧ py - 1 = p.minY - 1) := fun h =>
      hc ⟨(dist_up_iff hx').mpr h.1, (dist_down_iff hy).mpr h.2⟩
    simp only [oneChar_upRt, upRt]
    split_ifs with h h'
    · exact .of (turn_up hx' hw h) (along_down hy hy' fun hn => hc ⟨h, hn⟩) (.inr (.inr (.inl rfl)))
    · exact .of (along_up hx hx' h) (turn_down hy hh h') (.inl rfl)
    · exact .of (along_up hx hx' h) (along_down hy hy' h') (.inr (.inl rfl))
  · have hc : ¬ (px - 1 = p.minX - 1 ∧ py - 1 = p.minY - 1) := fun h =>
      hc ⟨(dist_down_iff hx).mpr h.1, (dist_down_iff hy).mpr h.2⟩
    simp only [oneChar_upLt, upLt]
    split_ifs with h h'
    · exact .of (along_down hx hx' fun hn => hc ⟨hn, h⟩) (turn_down hy hh h) (.inr (.inr (.inr rfl)))
    · exact .of (turn_down hx hw h') (along_down hy hy' h) (.inr (.inl rfl))
    · exact .of (along_down hx hx' h') (along_down hy hy' h) (.inr (.inr (.inl rfl)))
  · have hc : ¬ (px - 1 = p.minX - 1 ∧ py + 1 = p.maxY) := fun h =>
      hc ⟨(dist_down_iff hx).mpr h.1, (dist_up_iff hy').mpr h.2⟩
    simp only [oneChar_dnLt, dnLt]
    split_ifs with h h'
    · exact .of (turn_down hx hw h) (along_up hy hy' fun hn => hc ⟨h, hn⟩) (.inl rfl)
    · exact .of (along_down hx hx' h) (turn_up hy' hh h') (.inr (.inr (.inl rfl)))
    · exact .of (along_down hx hx' h) (along_up hy hy' h') (.inr (.inr (.inr rfl)))

/-- What lies before the first coordinate is not between the sides, also where it wraps around. -/
theorem not_before {a b x : BitVec 16} (h : x = a - 1) (ha : a ≤ x) (hb : x < b) : False := by
  bv_omega

/-- **In a corner only one of the sides is looked at, and the move leaves the quarter.** -/
theorem move_of_corner (hs : Inside p s) (hd : s.Headed) (hc : s.Corner p) :
    ¬ Inside p (oneChar p s) := by
  obtain ⟨hx, hx', hy, hy'⟩ := hs
  obtain ⟨hcx, hcy⟩ := hc
  obtain ⟨px, py, drt, color⟩ := s
  have hd : drt = 1 ∨ drt = 2 ∨ drt = 3 ∨ drt = 4 := hd
  rcases hd with rfl | rfl | rfl | rfl
  · have h1 : px + 1 = p.maxX := (dist_up_iff hx').mp hcx
    have h2 : py + 1 = p.maxY := (dist_up_iff hy').mp hcy
    simp only [oneChar_dnRt, dnRt, if_pos h2]
    exact fun h => (BitVec.ne_of_lt h.lt_maxX) h1
  · have h1 : px + 1 = p.maxX := (dist_up_iff hx').mp hcx
    have h2 : py - 1 = p.minY - 1 := (dist_down_iff hy).mp hcy
    simp only [oneChar_upRt, upRt, if_pos h1]
    exact fun h => not_before h2 h.minY_le h.lt_maxY
  · have h1 : px - 1 = p.minX - 1 := (dist_down_iff hx).mp hcx
    have h2 : py - 1 = p.minY - 1 := (dist_down_iff hy).mp hcy
    simp only [oneChar_upLt, upLt, if_pos h2]
    exact fun h => not_before h1 h.minX_le h.lt_maxX
  · have h1 : px - 1 = p.minX - 1 := (dist_down_iff hx).mp hcx
    have h2 : py + 1 = p.maxY := (dist_up_iff hy').mp hcy
    simp only [oneChar_dnLt, dnLt, if_pos h1]
    exact fun h => (BitVec.ne_of_lt h.lt_maxY) h2

/-! ## Runs -/

theorem dist_le {a b x : BitVec 16} (up : Bool) (ha : a ≤ x) (hb : x < b) :
    dist a b up x ≤ b.toNat - a.toNat - 1 := by
  cases up
  · simp only [dist, Bool.false_eq_true, if_false]
    bv_omega
  · simp only [dist, if_true]
    bv_omega

theorem Rolls.lt {w d d' : ℕ} (h : Rolls w d d') (hd : d ≤ w) : d' < w := by
  rcases h with h | ⟨-, h⟩ <;> omega

theorem Rolls.modEq {w d d' : ℕ} (h : Rolls w d d') : d' + 1 ≡ d [MOD w] := by
  rcases h with h | ⟨h0, h⟩
  · rw [h]
  · rw [h0, h]
    exact Nat.modEq_zero_iff_dvd.mpr dvd_rfl

/-- What `n` moves do if none of them begins in a corner. -/
structure Travelled (p : Prg) (n : ℕ) (s t : Sprite) : Prop where
  inside : Inside p t
  headed : t.Headed
  distX : t.distX p + n ≡ s.distX p [MOD p.width]
  distY : t.distY p + n ≡ s.distY p [MOD p.height]
  lt : 0 < n → t.distX p < p.width ∧ t.distY p < p.height

theorem Travelled.move {u : Sprite} (h : Travelled p n s t) (hm : Moved p t u) :
    Travelled p (n + 1) s u := by
  have hadd : ∀ {w d d' e : ℕ}, d + n ≡ e [MOD w] → Rolls w d d' → d' + (n + 1) ≡ e [MOD w] := by
    intro w d d' e he hr
    have hn : d' + 1 + n ≡ d + n [MOD w] := hr.modEq.add_right n
    rw [Nat.add_comm n 1, ← Nat.add_assoc]
    exact hn.trans he
  refine ⟨hm.inside, hm.headed, hadd h.distX hm.distX, hadd h.distY hm.distY, fun _ => ⟨?_, ?_⟩⟩
  · exact hm.distX.lt (dist_le _ h.inside.minX_le h.inside.lt_maxX)
  · exact hm.distY.lt (dist_le _ h.inside.minY_le h.inside.lt_maxY)

theorem travelled (hs : Inside p s) (hd : s.Headed)
    (hc : ∀ i < n, ¬ ((oneChar p)^[i] s).Corner p) : Travelled p n s ((oneChar p)^[n] s) := by
  induction n with
  | zero => exact ⟨hs, hd, rfl, rfl, fun h => absurd h (Nat.lt_irrefl 0)⟩
  | succ n ih =>
    have h := ih fun i hi => hc i (Nat.lt_succ_of_lt hi)
    rw [Function.iterate_succ_apply']
    exact h.move (move_of_not_corner h.inside h.headed (hc n (Nat.lt_succ_self n)))

theorem exists_meet (p : Prg) (x y : ℕ) :
    ∃ n, 0 < n ∧ n ≤ 429 ∧ n ≡ x [MOD p.width] ∧ n ≡ y [MOD p.height] := by
  have hco : p.width.Coprime p.height := by cases p <;> decide
  have hw : p.width ≠ 0 := by cases p <;> decide
  have hh : p.height ≠ 0 := by cases p <;> decide
  have hle : p.width * p.height ≤ 429 := by cases p <;> decide
  have hlt := Nat.chineseRemainder_lt_mul hco x y hw hh
  obtain ⟨hx, hy⟩ := (Nat.chineseRemainder hco x y).2
  generalize (Nat.chineseRemainder hco x y).1 = k at hlt hx hy
  rcases Nat.eq_zero_or_pos k with rfl | hk
  · refine ⟨p.width * p.height, Nat.mul_pos (by omega) (by omega), hle, ?_, ?_⟩
    · exact (Nat.modEq_zero_iff_dvd.mpr (dvd_mul_right ..)).trans hx
    · exact (Nat.modEq_zero_iff_dvd.mpr (dvd_mul_left ..)).trans hy
  · exact ⟨k, hk, by omega, hx, hy⟩

theorem exists_corner (hs : Inside p s) (hd : s.Headed) :
    ∃ n ≤ 429, ((oneChar p)^[n] s).Corner p := by
  obtain ⟨n, hpos, hle, hx, hy⟩ := exists_meet p (s.distX p) (s.distY p)
  by_cases hc : ∃ i < n, ((oneChar p)^[i] s).Corner p
  · obtain ⟨i, hi, hc⟩ := hc
    exact ⟨i, by omega, hc⟩
  · have h := travelled hs hd fun i hi hi' => hc ⟨i, hi, hi'⟩
    have hzero : ∀ {w d e : ℕ}, d + n ≡ e [MOD w] → n ≡ e [MOD w] → d < w → d = 0 := by
      intro w d e hd he hlt
      have hn : d + n ≡ 0 + n [MOD w] := by
        rw [Nat.zero_add]
        exact hd.trans he.symm
      exact (Nat.ModEq.add_right_cancel' n hn).eq_of_lt_of_lt hlt (Nat.zero_lt_of_lt hlt)
    exact ⟨n, hle, hzero h.distX hx (h.lt hpos).1, hzero h.distY hy (h.lt hpos).2⟩

/-- **A character stays in the quarter up to its first corner, and leaves it there.** -/
theorem exists_leave (hs : Inside p s) (hd : s.Headed) :
    ∃ n ≤ 430, (∀ i < n, Inside p ((oneChar p)^[i] s)) ∧ ¬ Inside p ((oneChar p)^[n] s) := by
  classical
  obtain ⟨n, hn, hc⟩ := exists_corner hs hd
  have hex : ∃ n, ((oneChar p)^[n] s).Corner p := ⟨n, hc⟩
  have hle : Nat.find hex ≤ n := Nat.find_min' hex hc
  have hmin : ∀ i ≤ Nat.find hex, Travelled p i s ((oneChar p)^[i] s) := fun i hi =>
    travelled hs hd fun j hj => Nat.find_min hex (by omega)
  refine ⟨Nat.find hex + 1, by omega, fun i hi => (hmin i (by omega)).inside, ?_⟩
  have h := hmin _ le_rfl
  rw [Function.iterate_succ_apply']
  exact move_of_corner h.inside h.headed (Nat.find_spec hex)

/-! ## The loop -/

theorem sprites_rounds (v : Data) (k : ℕ) :
    (p.round^[k] v).sprites = v.sprites.map (oneChar p)^[k] := by
  induction k with
  | zero => exact (List.map_id _).symm
  | succ k ih =>
    rw [Function.iterate_succ_apply', Prg.round, ih, List.map_map, Function.iterate_succ']

/-- How many rounds the loop takes: `jge` takes one more than `jne`. -/
def Prg.rounds : Prg → ℕ
  | prg1 => 1001
  | _ => 1000

theorem mainloop_eq (ha : ∀ i < n, p.again (v.cnt - BitVec.ofNat 16 (i + 1)) = true)
    (hn : p.again (v.cnt - BitVec.ofNat 16 (n + 1)) = false) (hk : n < k) :
    p.mainloop k v = some (n + 1, p.round^[n + 1] v) := by
  induction n generalizing k v with
  | zero =>
    obtain ⟨k, rfl⟩ := Nat.exists_eq_succ_of_ne_zero (Nat.ne_zero_of_lt hk)
    have h0 : p.again (p.round v).cnt = false := hn
    simp only [Prg.mainloop, h0, Bool.false_eq_true, if_false]
    rfl
  | succ n ih =>
    obtain ⟨k, rfl⟩ := Nat.exists_eq_succ_of_ne_zero (Nat.ne_zero_of_lt hk)
    have h0 : p.again (p.round v).cnt = true := ha 0 (Nat.succ_pos n)
    have hcnt : ∀ i, (p.round v).cnt - BitVec.ofNat 16 (i + 1) =
        v.cnt - BitVec.ofNat 16 (i + 1 + 1) := by
      intro i
      show v.cnt - 1 - _ = _
      bv_omega
    have h := ih (fun i hi => by rw [hcnt]; exact ha (i + 1) (Nat.succ_lt_succ hi))
      (by rw [hcnt]; exact hn) (Nat.lt_of_succ_lt_succ hk)
    simp only [Prg.mainloop, h0, if_true, h, Option.map_some]
    rfl

theorem mainloop_rounds (hv : v.cnt = 1000) (hk : p.rounds ≤ k) :
    p.mainloop k v = some (p.rounds, p.round^[p.rounds] v) := by
  have hcnt : ∀ i < 1000, (v.cnt - BitVec.ofNat 16 (i + 1)).toNat = 999 - i := by
    intro i hi
    rw [hv]
    bv_omega
  have hne : ∀ i < 999, (v.cnt - BitVec.ofNat 16 (i + 1) != 0) = true := by
    intro i hi
    have h := hcnt i (by omega)
    rw [bne_iff_ne]
    bv_omega
  have hlast : (v.cnt - BitVec.ofNat 16 (999 + 1) != 0) = false := by
    rw [hv]
    decide
  cases p with
  | prg1 =>
    refine mainloop_eq (fun i hi => decide_eq_true ?_) ?_ hk
    · have h := hcnt i hi
      rw [BitVec.toInt_eq_toNat_of_lt (by omega)]
      omega
    · rw [hv]
      decide
  | prg2 | prg3 | prg4 => exact mainloop_eq hne hlast hk

/-- **Each of the characters leaves the quarter, and the program returns only after that.** -/
theorem mainloop_leaves (hv : v.cnt = 1000) (hs : ∀ s ∈ v.sprites, Inside p s ∧ s.Headed) :
    (∀ k ≥ p.rounds, p.mainloop k v = some (p.rounds, p.round^[p.rounds] v)) ∧
    ∀ i < v.sprites.length, ∃ n < p.rounds,
      (∀ j < n, ∃ s, (p.round^[j] v).sprites[i]? = some s ∧ Inside p s) ∧
      ∃ s, (p.round^[n] v).sprites[i]? = some s ∧ ¬ Inside p s := by
  refine ⟨fun k hk => mainloop_rounds hv hk, fun i hi => ?_⟩
  have hget : ∀ j, (p.round^[j] v).sprites[i]? = some ((oneChar p)^[j] v.sprites[i]) := by
    intro j
    rw [sprites_rounds, List.getElem?_map, List.getElem?_eq_getElem hi]
    rfl
  obtain ⟨hin, hd⟩ := hs _ (List.getElem_mem hi)
  obtain ⟨n, hn, hbefore, hafter⟩ := exists_leave hin hd
  have hlt : 430 < p.rounds := by cases p <;> decide
  exact ⟨n, by omega, fun j hj => ⟨_, hget j, hbefore j hj⟩, _, hget n, hafter⟩

/-- The first program takes 1001 rounds, and its character has left the quarter before. -/
theorem mainloop_leaves_prg1 :
    Prg.prg1.mainloop 1001 Prg.prg1.data = some (1001, Prg.prg1.round^[1001] Prg.prg1.data) ∧
    ∃ n < 1001, ∃ s, (Prg.prg1.round^[n] Prg.prg1.data).sprites[0]? = some s ∧
      ¬ Inside .prg1 s := by
  have hs : ∀ s ∈ Prg.prg1.data.sprites, Inside .prg1 s ∧ s.Headed := by
    intro s hs
    obtain rfl := List.mem_singleton.mp hs
    exact ⟨⟨by decide, by decide, by decide, by decide⟩, .inl rfl⟩
  obtain ⟨hloop, hleaves⟩ := mainloop_leaves (p := .prg1) rfl hs
  obtain ⟨n, hn, -, h⟩ := hleaves 0 (by decide)
  exact ⟨hloop 1001 (le_refl 1001), n, hn, h⟩

end AdvancedOS.Bounce
