import AdvancedOS.Lib.Span
import Mathlib.Data.Set.Lattice
import Mathlib.Logic.Function.Basic
import Mathlib.Order.CompletePartialOrder

/-!
# Copying between spans

`copyUp d s n m` copies the `n` values from the address `s` on to the addresses from `d` on, one
after the other and upwards.

* `toNat_sub_eq_iff`, `add_mem_span`: the addresses of a span by their offsets;
* `length_le_of_disjoint`: how long spans can be that do not meet;
* `copyUp_apply`: **if the spans do not meet, every address of the one from `d` on gets the value at
  its offset from `s`, and the others keep theirs.**
-/

open Function (update)

variable {α : Type*} {w : ℕ} {d s x : BitVec w} {k n : ℕ} {m : BitVec w → α}

theorem toNat_sub_eq_iff (hn : n < 2 ^ w) : (x - d).toNat = n ↔ x = d + BitVec.ofNat w n := by
  constructor
  · rintro rfl
    rw [BitVec.ofNat_toNat, BitVec.setWidth_eq, BitVec.add_comm, BitVec.sub_add_cancel]
  · rintro rfl
    rw [BitVec.add_comm, BitVec.add_sub_cancel, BitVec.toNat_ofNat, Nat.mod_eq_of_lt hn]

theorem add_mem_span (hn : n ≤ 2 ^ w) (hk : k < n) : d + BitVec.ofNat w k ∈ span d n := by
  rw [mem_span, (toNat_sub_eq_iff (hk.trans_le hn)).mpr rfl]
  exact hk

theorem length_le_of_disjoint (hd : Disjoint (span d n) (span s n)) : n ≤ 2 ^ w := by
  by_contra hn
  have hall : ∀ c : BitVec w, d ∈ span c n := fun c =>
    mem_span.mpr ((d - c).isLt.trans (not_le.mp hn))
  exact hd.ne_of_mem (hall d) (hall s) rfl

/-- Copy `n` values upwards. -/
def copyUp (d s : BitVec w) : ℕ → (BitVec w → α) → BitVec w → α
  | 0, m => m
  | n + 1, m =>
    update (copyUp d s n m) (d + BitVec.ofNat w n) (copyUp d s n m (s + BitVec.ofNat w n))

/-- **Copying to a span that does not meet the source.** -/
theorem copyUp_apply (hn : n ≤ 2 ^ w) (hd : Disjoint (span d n) (span s n)) (x : BitVec w) :
    copyUp d s n m x = if (x - d).toNat < n then m (s + (x - d)) else m x := by
  induction n generalizing x with
  | zero => rfl
  | succ n ih =>
    have ih := ih (Nat.le_of_succ_le hn) (hd.mono (span_subset n.le_succ) (span_subset n.le_succ))
    rw [copyUp]
    by_cases hx : x = d + BitVec.ofNat w n
    · -- the last value is read where nothing has been stored
      have hs : s + BitVec.ofNat w n ∉ span d n := fun h =>
        hd.ne_of_mem (span_subset n.le_succ h) (add_mem_span hn n.lt_succ_self) rfl
      have hoff : (x - d).toNat = n := (toNat_sub_eq_iff hn).mpr hx
      have hsub : x - d = BitVec.ofNat w n := by
        rw [hx, BitVec.add_comm, BitVec.add_sub_cancel]
      rw [if_pos (by omega), hsub, hx, Function.update_self, ih]
      exact if_neg hs
    · have hoff : (x - d).toNat ≠ n := fun h => hx ((toNat_sub_eq_iff hn).mp h)
      rw [Function.update_of_ne hx, ih]
      exact if_congr (by omega) rfl rfl

theorem copyUp_of_notMem (hn : n ≤ 2 ^ w) (hd : Disjoint (span d n) (span s n))
    (hx : x ∉ span d n) : copyUp d s n m x = m x := by
  rw [copyUp_apply hn hd]
  exact if_neg hx

theorem copyUp_of_mem (hn : n ≤ 2 ^ w) (hd : Disjoint (span d n) (span s n)) (hk : k < n) :
    copyUp d s n m (d + BitVec.ofNat w k) = m (s + BitVec.ofNat w k) := by
  have hsub : d + BitVec.ofNat w k - d = BitVec.ofNat w k := by
    rw [BitVec.add_comm, BitVec.add_sub_cancel]
  rw [copyUp_apply hn hd, hsub]
  apply if_pos
  rw [BitVec.toNat_ofNat]
  exact (Nat.mod_le _ _).trans_lt hk
