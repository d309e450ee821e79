import AdvancedOS.Stdio.Numeral
import AdvancedOS.Task.Model

/-!
# `atoi`

`atoi` adds a character to the `int` before it takes `'0'` away again.

* `atoi`: the function; there is no value if an `int` overflows on the way;
* `atoi_itoa`: **`atoi` reads back what `itoa` has written exactly if the number is less than
  `2 ^ 31 - 48`**, and overflows for the others.
-/

namespace AdvancedOS.Stdio

variable {l : List Byte} {n d : ℕ}

/-- The value of an `int` expression; an overflow is undefined. -/
def intValue (x : ℤ) : Option ℤ := if IsInt x then some x else none

/-- `res * 10 + str[i] - '0'`, where a `char` has a sign. -/
def atoiStep (res : ℤ) (c : Byte) : Option ℤ := do
  let x ← intValue (res * 10)
  let y ← intValue (x + c.toInt)
  intValue (y - 0x30)

/-- `atoi`: `res` in the end. -/
def atoi (str : CStr) : Option ℤ := str.toList.foldlM atoiStep 0

theorem toInt_bchars (hd : d < 10) : (bchars d).toInt = 48 + d := by
  revert hd
  revert d
  decide

theorem numeral_snoc (hn : 10 ≤ n) : numeral 10 n = numeral 10 (n / 10) ++ [n % 10] := by
  rw [numeral_of_ne_zero (by omega), numeral_of_ne_zero (by omega),
    Nat.digits_def' (by decide) (by omega), List.reverse_cons]

theorem numeral_of_lt (hn : n < 10) : numeral 10 n = [n] := by
  by_cases h0 : n = 0
  · rw [h0]
    rfl
  · rw [numeral_of_ne_zero h0, Nat.digits_of_lt 10 n h0 hn, List.reverse_singleton]

theorem intValue_of_nonneg {x : ℤ} (h0 : 0 ≤ x) :
    intValue x = if x < 2 ^ 31 then some x else none := by
  have hiff : IsInt x ↔ x < 2 ^ 31 := by
    unfold IsInt
    omega
  unfold intValue
  simp only [hiff]

theorem atoiStep_bchars (hd : d < 10) : atoiStep n (bchars d) =
    if n * 10 + d + 48 < 2 ^ 31 then some ((n * 10 + d : ℕ) : ℤ) else none := by
  unfold atoiStep
  rw [toInt_bchars hd, intValue_of_nonneg (by omega)]
  by_cases h : n * 10 + d + 48 < 2 ^ 31
  · have h1 : (n : ℤ) * 10 < 2 ^ 31 := by omega
    have h2 : (n : ℤ) * 10 + (48 + d) < 2 ^ 31 := by omega
    have h3 : (n : ℤ) * 10 + (48 + d) - 0x30 < 2 ^ 31 := by omega
    rw [if_pos h1, Option.bind_eq_bind, Option.bind_some, intValue_of_nonneg (by omega), if_pos h2,
      Option.bind_some, intValue_of_nonneg (by omega), if_pos h3, if_pos h]
    congr 1
    push_cast
    omega
  · rw [if_neg h]
    by_cases h1 : (n : ℤ) * 10 < 2 ^ 31
    · have h2 : ¬ (n : ℤ) * 10 + (48 + d) < 2 ^ 31 := by omega
      rw [if_pos h1, Option.bind_eq_bind, Option.bind_some, intValue_of_nonneg (by omega), if_neg h2]
      rfl
    · rw [if_neg h1]
      rfl

theorem foldlM_digitText (n : ℕ) : (digitText 10 n).foldlM atoiStep 0 =
    if n + 48 < 2 ^ 31 then some (n : ℤ) else none := by
  induction n using Nat.strong_induction_on with
  | h n ih =>
    by_cases hn : n < 10
    · have hstep := atoiStep_bchars (n := 0) hn
      rw [Nat.zero_mul, Nat.zero_add, Nat.cast_zero] at hstep
      rw [digitText, numeral_of_lt hn, List.map_singleton, List.foldlM_cons, hstep, if_pos (by omega)]
      rfl
    · have hlast : n / 10 * 10 + n % 10 = n := Nat.div_add_mod' n 10
      have hrest := ih (n / 10) (Nat.div_lt_self (by omega) (by decide))
      have hstep := atoiStep_bchars (n := n / 10) (Nat.mod_lt n (by decide : 10 > 0))
      rw [hlast] at hstep
      rw [digitText] at hrest ⊢
      rw [numeral_snoc (Nat.le_of_not_lt hn), List.map_append, List.foldlM_append, hrest]
      by_cases hshort : n / 10 + 48 < 2 ^ 31
      · rw [if_pos hshort, Option.bind_eq_bind, Option.bind_some, List.map_singleton, List.foldlM_cons,
          hstep]
        split_ifs <;> rfl
      · rw [if_neg hshort, if_neg (by omega)]
        rfl

/-- **`atoi` reads back what `itoa` has written, unless it overflows.** -/
theorem atoi_itoa (x : Word) : ∃ s, itoa x 10 = .ok s ∧
    atoi s = if x.toNat + 48 < 2 ^ 31 then some (x.toNat : ℤ) else none := by
  refine ⟨_, itoa_ten x, ?_⟩
  rw [atoi, toList_ofList_digitText (by decide) (by decide)]
  exact foldlM_digitText x.toNat

end AdvancedOS.Stdio
