import Mathlib.Algebra.Group.Nat.Defs
import Mathlib.Data.Set.Basic

/-!
# Spans of addresses

`span a n` is the set of the `n` addresses from `a` on, for addresses that wrap around.

* `span_subset`, `span_add_subset`: a span in a longer one;
* `mem_span_iff`, `mem_span_add_iff`: spans by numbers, and by offsets;
* `span_add_disjoint`: a span and the one right after it;
* `span_disjoint`: **spans that follow each other below the end of the addresses do not meet.**
-/

variable {w : ℕ}

/-- The `n` addresses from `a` on. -/
def span (a : BitVec w) (n : ℕ) : Set (BitVec w) := {x | (x - a).toNat < n}

variable {a b x : BitVec w} {m n : ℕ}

theorem mem_span : x ∈ span a n ↔ (x - a).toNat < n := Iff.rfl

theorem span_subset (h : m ≤ n) : span a m ⊆ span a n := fun _ hx => lt_of_lt_of_le hx h

theorem self_mem_span (h : 0 < n) : a ∈ span a n := by
  rw [mem_span, BitVec.sub_self]
  exact h

theorem span_add_subset (k : ℕ) : span (a + BitVec.ofNat w k) n ⊆ span a (k + n) := by
  intro x hx
  have hsub : x - a = x - (a + BitVec.ofNat w k) + BitVec.ofNat w k := by
    rw [← BitVec.sub_sub, BitVec.sub_add_cancel]
  have hk : (BitVec.ofNat w k).toNat ≤ k := by
    rw [BitVec.toNat_ofNat]
    exact Nat.mod_le _ _
  rw [mem_span] at hx ⊢
  rw [hsub, BitVec.toNat_add]
  exact (Nat.mod_le _ _).trans_lt (by omega)

theorem mem_span_iff (h : a.toNat + n ≤ 2 ^ w) :
    x ∈ span a n ↔ a.toNat ≤ x.toNat ∧ x.toNat < a.toNat + n := by
  have hx := x.isLt
  have ha := a.isLt
  rw [mem_span, BitVec.toNat_sub]
  by_cases hax : a.toNat ≤ x.toNat
  · rw [show 2 ^ w - a.toNat + x.toNat = x.toNat - a.toNat + 2 ^ w by omega, Nat.add_mod_right,
      Nat.mod_eq_of_lt (by omega)]
    omega
  · rw [Nat.mod_eq_of_lt (by omega)]
    omega

/-- A span at an offset, by the offsets. -/
theorem mem_span_add_iff {k : ℕ} (h : k + n ≤ 2 ^ w) :
    x ∈ span (a + BitVec.ofNat w k) n ↔ k ≤ (x - a).toNat ∧ (x - a).toNat < k + n := by
  have ho := (x - a).isLt
  rw [mem_span, ← BitVec.sub_sub, BitVec.toNat_sub, BitVec.toNat_ofNat]
  generalize (x - a).toNat = o at ho
  by_cases hk : k < 2 ^ w
  · rw [Nat.mod_eq_of_lt hk]
    by_cases hko : k ≤ o
    · rw [show 2 ^ w - k + o = o - k + 2 ^ w by omega, Nat.add_mod_right, Nat.mod_eq_of_lt (by omega)]
      omega
    · rw [Nat.mod_eq_of_lt (by omega)]
      omega
  · omega

theorem span_add_disjoint (h : m + n ≤ 2 ^ w) (hx : x ∈ span a m) :
    x ∉ span (a + BitVec.ofNat w m) n := by
  intro hx'
  rw [mem_span, ← BitVec.sub_sub, BitVec.toNat_sub, BitVec.toNat_ofNat] at hx'
  rw [mem_span] at hx
  by_cases hm : m < 2 ^ w
  · rw [Nat.mod_eq_of_lt hm, Nat.mod_eq_of_lt (by omega)] at hx'
    omega
  · omega

theorem span_disjoint (h : a.toNat + m ≤ b.toNat) (hb : b.toNat + n ≤ 2 ^ w) (hx : x ∈ span a m) :
    x ∉ span b n := by
  intro hx'
  have hlt := b.isLt
  have h1 := ((mem_span_iff (h.trans hlt.le)).mp hx).2
  have h2 := ((mem_span_iff hb).mp hx').1
  omega
