import Mathlib.Data.Nat.Digits.Lemmas

/-!
# Numerals

`numeral b n` is the numeral of `n` in base `b`: its digits, the highest first.

* `foldl_numeral`: **its value is `n`**;
* `lt_of_mem_numeral`: its digits are below the base;
* `head_numeral`: the first one is not zero, unless `n` is.
-/

/-- The numeral of `n` in base `b`. -/
def numeral (b n : ℕ) : List ℕ := if n = 0 then [0] else (Nat.digits b n).reverse

variable {b n d : ℕ}

theorem numeral_of_ne_zero (h : n ≠ 0) : numeral b n = (Nat.digits b n).reverse := if_neg h

theorem numeral_ne_nil (b n : ℕ) : numeral b n ≠ [] := by
  unfold numeral
  split_ifs with h
  · exact List.cons_ne_nil 0 []
  · rw [ne_eq, List.reverse_eq_nil_iff]
    exact Nat.digits_ne_nil_iff_ne_zero.mpr h

theorem foldl_numeral (b n : ℕ) : (numeral b n).foldl (fun v d => v * b + d) 0 = n := by
  unfold numeral
  split_ifs with h
  · rw [h, List.foldl_cons, List.foldl_nil, Nat.zero_mul]
  · have hval := Nat.ofDigits_digits b n
    rw [Nat.ofDigits_eq_foldr] at hval
    rw [List.foldl_reverse]
    refine Eq.trans ?_ hval
    congr 1
    funext d v
    rw [Nat.cast_id, Nat.mul_comm, Nat.add_comm]

theorem lt_of_mem_numeral (hb : 1 < b) (hd : d ∈ numeral b n) : d < b := by
  unfold numeral at hd
  split_ifs at hd
  · rw [List.mem_singleton.mp hd]
    exact Nat.zero_lt_of_lt hb
  · exact Nat.digits_lt_base hb (List.mem_reverse.mp hd)

theorem head_numeral (h : (numeral b n).head? = some 0) : n = 0 := by
  by_contra hn
  rw [numeral_of_ne_zero hn, List.head?_reverse] at h
  have hne : Nat.digits b n ≠ [] := Nat.digits_ne_nil_iff_ne_zero.mpr hn
  rw [List.getLast?_eq_some_getLast hne] at h
  exact Nat.getLast_digit_ne_zero b hn (Option.some.inj h)
