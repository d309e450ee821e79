import AdvancedOS.Lib.Bytes
import Mathlib.Tactic.IntervalCases

/-!
# Two twelve-bit numbers in three bytes

The numbers `x` and `y` are stored as the low byte of `x`, a byte with the high half-byte of `x`
below and the low one of `y` above, and the high byte of `y`. Sequences are functions on the natural
numbers: the numbers `2 * k` and `2 * k + 1` are in the bytes from `3 * k` on.

* `fst`, `snd`, `byte0`, `byte1`, `byte2`: one group;
* `unpack`, `pack`: sequences;
* `pack_unpack`: **packing undoes unpacking**; `unpack_pack`: **and conversely, for numbers of twelve
  bits**.
-/

namespace Packing

variable {a b c : Byte} {x y : BitVec 32} {p : ℕ → Byte} {t : ℕ → BitVec 32} {i j : ℕ}

/-- The first number of a group. -/
def fst (a b : Byte) : BitVec 32 := (a.setWidth 32 + b.setWidth 32 <<< 8) &&& 0x0FFF

/-- The second number of a group. -/
def snd (b c : Byte) : BitVec 32 := (b.setWidth 32 + c.setWidth 32 <<< 8) >>> 4

def byte0 (x : BitVec 32) : Byte := x.setWidth 8

def byte1 (x y : BitVec 32) : Byte := (((x >>> 8) &&& 0x0F) ||| ((y <<< 4) &&& 0xF0)).setWidth 8

def byte2 (y : BitVec 32) : Byte := (y >>> 4).setWidth 8

theorem add_eq_or (a b : Byte) :
    a.setWidth 32 + b.setWidth 32 <<< 8 = a.setWidth 32 ||| b.setWidth 32 <<< 8 := by
  refine BitVec.add_eq_or_of_and_eq_zero _ _ ?_
  ext i hi
  interval_cases i <;> simp

theorem byte0_fst : byte0 (fst a b) = a := by
  unfold byte0 fst
  rw [add_eq_or]
  ext i hi
  interval_cases i <;> simp

theorem byte1_fst_snd : byte1 (fst a b) (snd b c) = b := by
  unfold byte1 fst snd
  rw [add_eq_or, add_eq_or]
  ext i hi
  interval_cases i <;> simp

theorem byte2_snd : byte2 (snd b c) = c := by
  unfold byte2 snd
  rw [add_eq_or]
  ext i hi
  interval_cases i <;> simp

theorem fst_lt : (fst a b).toNat < 0x1000 := by
  have h : (fst a b).toNat ≤ 0xFFF := by
    unfold fst
    rw [BitVec.toNat_and]
    exact Nat.and_le_right
  omega

theorem snd_lt : (snd b c).toNat < 0x1000 := by
  have hb := b.isLt
  have hc := c.isLt
  unfold snd
  simp only [BitVec.toNat_ushiftRight, BitVec.toNat_add, BitVec.toNat_setWidth,
    BitVec.toNat_shiftLeft, Nat.shiftRight_eq_div_pow, Nat.shiftLeft_eq]
  omega

theorem eq_setWidth (hx : x.toNat < 0x1000) : x = (x.setWidth 12).setWidth 32 := by
  apply BitVec.eq_of_toNat_eq
  simp only [BitVec.toNat_setWidth]
  omega

theorem fst_byte (hx : x.toNat < 0x1000) : fst (byte0 x) (byte1 x y) = x := by
  unfold fst byte0 byte1
  rw [add_eq_or, eq_setWidth hx]
  ext i hi
  interval_cases i <;> simp

theorem snd_byte (hy : y.toNat < 0x1000) : snd (byte1 x y) (byte2 y) = y := by
  unfold snd byte1 byte2
  rw [add_eq_or, eq_setWidth hy]
  ext i hi
  interval_cases i <;> simp

/-! ## Sequences -/

/-- The numbers in a sequence of bytes. -/
def unpack (p : ℕ → Byte) (j : ℕ) : BitVec 32 :=
  if j % 2 = 0 then fst (p (3 * (j / 2))) (p (3 * (j / 2) + 1))
  else snd (p (3 * (j / 2) + 1)) (p (3 * (j / 2) + 2))

/-- The bytes of a sequence of numbers. -/
def pack (t : ℕ → BitVec 32) (i : ℕ) : Byte :=
  if i % 3 = 0 then byte0 (t (2 * (i / 3)))
  else if i % 3 = 1 then byte1 (t (2 * (i / 3))) (t (2 * (i / 3) + 1))
  else byte2 (t (2 * (i / 3) + 1))

theorem unpack_even (k : ℕ) : unpack p (2 * k) = fst (p (3 * k)) (p (3 * k + 1)) := by
  rw [unpack, if_pos (by omega), show 2 * k / 2 = k by omega]

theorem unpack_odd (k : ℕ) : unpack p (2 * k + 1) = snd (p (3 * k + 1)) (p (3 * k + 2)) := by
  rw [unpack, if_neg (by omega), show (2 * k + 1) / 2 = k by omega]

theorem pack_first (k : ℕ) : pack t (3 * k) = byte0 (t (2 * k)) := by
  rw [pack, if_pos (by omega), show 3 * k / 3 = k by omega]

theorem pack_second (k : ℕ) : pack t (3 * k + 1) = byte1 (t (2 * k)) (t (2 * k + 1)) := by
  rw [pack, if_neg (by omega), if_pos (by omega), show (3 * k + 1) / 3 = k by omega]

theorem pack_third (k : ℕ) : pack t (3 * k + 2) = byte2 (t (2 * k + 1)) := by
  rw [pack, if_neg (by omega), if_neg (by omega), show (3 * k + 2) / 3 = k by omega]

theorem unpack_lt : (unpack p j).toNat < 0x1000 := by
  unfold unpack
  split_ifs
  · exact fst_lt
  · exact snd_lt

theorem pack_unpack : pack (unpack p) i = p i := by
  obtain ⟨k, rfl | rfl | rfl⟩ : ∃ k, i = 3 * k ∨ i = 3 * k + 1 ∨ i = 3 * k + 2 :=
    ⟨i / 3, by omega⟩
  · rw [pack_first, unpack_even, byte0_fst]
  · rw [pack_second, unpack_even, unpack_odd, byte1_fst_snd]
  · rw [pack_third, unpack_odd, byte2_snd]

/-- **Unpacking undoes packing, for numbers of twelve bits.** -/
theorem unpack_pack (ht : ∀ j, (t j).toNat < 0x1000) : unpack (pack t) j = t j := by
  obtain ⟨k, rfl | rfl⟩ : ∃ k, j = 2 * k ∨ j = 2 * k + 1 := ⟨j / 2, by omega⟩
  · rw [unpack_even, pack_first, pack_second, fst_byte (ht _)]
  · rw [unpack_odd, pack_second, pack_third, snd_byte (ht _)]

end Packing
