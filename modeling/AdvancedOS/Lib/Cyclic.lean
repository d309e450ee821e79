import Mathlib.Algebra.GroupWithZero.Nat
import Mathlib.Data.List.Chain
import Mathlib.Data.List.FinRange

/-!
# Cyclic search

`cyclicFind start P` looks at the indices `start`, `start + 1`, … of `Fin n` in cyclic order and
returns the first one that satisfies `P`.

* `hops start j`: how many indices are passed before `j`;
* `cyclicFind_eq_none`, `cyclicFind_sound`, `cyclicFind_first`: the search fails only if nothing
  satisfies `P`, and otherwise returns the first index in the order of `hops`;
* `cyclicFind_nearest`: everything nearer than the index that is returned does not satisfy `P`;
* `hops_lt`: **a search that goes on behind the index found last comes closer to every index that
  satisfies `P`**;
* `length_lt_of_isChain`: **so an index is passed over fewer than `n` times in a row**.
-/

namespace Cyclic

variable {n : ℕ} [NeZero n] {P : Fin n → Prop} [DecidablePred P] {start : ℕ} {i j : Fin n}

/-- The index `k` positions behind `start`. -/
def behind (n : ℕ) [NeZero n] (start k : ℕ) : Fin n := Fin.ofNat n (k + start)

/-- The first index from `start` on that satisfies `P`. -/
def cyclicFind (start : ℕ) (P : Fin n → Prop) [DecidablePred P] : Option (Fin n) :=
  ((List.range n).map (behind n start)).find? fun i => P i

/-- The number of indices passed from `start` to `j`, for `start ≤ n`. -/
def hops (start : ℕ) (j : Fin n) : ℕ := if start ≤ j then j - start else j + n - start

omit [NeZero n] in
theorem hops_lt_length (h : start ≤ n) (j : Fin n) : hops start j < n := by
  have := j.isLt
  unfold hops
  split_ifs <;> omega

theorem behind_hops (h : start ≤ n) (j : Fin n) : behind n start (hops start j) = j := by
  have hj := j.isLt
  apply Fin.ext
  simp only [behind, Fin.val_ofNat, hops]
  split_ifs with hs
  · rw [Nat.sub_add_cancel hs, Nat.mod_eq_of_lt hj]
  · rw [Nat.sub_add_cancel (by omega), Nat.add_mod_right, Nat.mod_eq_of_lt hj]

theorem hops_behind (h : start ≤ n) {k : ℕ} (hk : k < n) : hops start (behind n start k) = k := by
  have hv : (behind n start k : ℕ) = if k + start < n then k + start else k + start - n := by
    simp only [behind, Fin.val_ofNat]
    split_ifs with hs
    · exact Nat.mod_eq_of_lt hs
    · rw [Nat.mod_eq_sub_mod (by omega), Nat.mod_eq_of_lt (by omega)]
  unfold hops
  rw [hv]
  split_ifs <;> omega

theorem cyclicFind_eq : cyclicFind start P =
    ((List.range n).find? fun k => P (behind n start k)).map (behind n start) := by
  rw [cyclicFind, List.find?_map]
  rfl

theorem cyclicFind_eq_none (h : start ≤ n) : cyclicFind start P = none ↔ ∀ i, ¬ P i := by
  rw [cyclicFind_eq, Option.map_eq_none_iff, List.find?_eq_none]
  simp only [List.mem_range, decide_eq_true_eq]
  constructor
  · intro hn i hi
    refine hn (hops start i) (hops_lt_length h i) ?_
    rwa [behind_hops h]
  · exact fun hn k _ => hn _

theorem cyclicFind_sound (h : cyclicFind start P = some i) : P i := by
  have := List.find?_some h
  simpa using this

/-- The search passes over nothing that satisfies `P`. -/
theorem cyclicFind_first (hs : start ≤ n) (h : cyclicFind start P = some i) (hj : P j) :
    hops start i ≤ hops start j := by
  rw [cyclicFind_eq, Option.map_eq_some_iff] at h
  obtain ⟨k, hk, rfl⟩ := h
  obtain ⟨-, hkn, hmin⟩ := List.find?_range_eq_some.mp hk
  rw [hops_behind hs (List.mem_range.mp hkn)]
  by_contra hlt
  have := hmin (hops start j) (by omega)
  rw [behind_hops hs] at this
  simp [hj] at this

theorem cyclicFind_nearest (h : cyclicFind start P = some i) :
    ∃ k < n, i = behind n start k ∧ ∀ e < k, ¬ P (behind n start e) := by
  rw [cyclicFind_eq, Option.map_eq_some_iff] at h
  obtain ⟨k, hk, rfl⟩ := h
  obtain ⟨-, hkn, hmin⟩ := List.find?_range_eq_some.mp hk
  refine ⟨k, List.mem_range.mp hkn, rfl, fun e he hP => ?_⟩
  have := hmin e he
  simp [hP] at this

theorem behind_succ (start k : ℕ) : behind n (1 + start) k = behind n start (k + 1) := by
  rw [behind, behind, ← Nat.add_assoc]

omit [NeZero n] in
theorem hops_lt (c : Fin n) (h : hops (1 + c) i ≤ hops (1 + c) j) (hij : i ≠ j) :
    hops (1 + i) j < hops (1 + c) j := by
  have hi := i.isLt
  have hj := j.isLt
  have hc := c.isLt
  have hne : (i : ℕ) ≠ j := fun e => hij (Fin.ext e)
  unfold hops at h ⊢
  split_ifs at h ⊢ <;> omega

/-- A search from the start of the table agrees with one that goes on behind `c`, unless it turns
back to an index up to `c` although an index behind `c` satisfies `P`. -/
theorem cyclicFind_zero (c : Fin n) (h : cyclicFind 0 P = some i)
    (hc : ¬ ((∃ a, P a ∧ a ≤ c) ∧ ∃ b, P b ∧ c < b)) (hj : P j) :
    hops (1 + c) i ≤ hops (1 + c) j := by
  have hi := cyclicFind_sound h
  have h0 := cyclicFind_first (Nat.zero_le n) h hj
  have hij : ¬ (i ≤ c ∧ c < j) := fun ⟨h1, h2⟩ => hc ⟨⟨i, hi, h1⟩, ⟨j, hj, h2⟩⟩
  have hji : ¬ (j ≤ c ∧ c < i) := fun ⟨h1, h2⟩ => hc ⟨⟨j, hj, h1⟩, ⟨i, hi, h2⟩⟩
  rw [Fin.le_def, Fin.lt_def] at hij hji
  unfold hops at h0 ⊢
  have := i.isLt
  have := j.isLt
  split_ifs at h0 ⊢ <;> omega

omit [NeZero n] in
theorem hops_succ_lt (h : i ≠ j) : hops (1 + i) j < n - 1 := by
  have hi := i.isLt
  have hj := j.isLt
  have hne : (i : ℕ) ≠ j := fun e => h (Fin.ext e)
  unfold hops
  split_ifs <;> omega

omit [NeZero n] in
/-- **An index is passed over fewer than `n` times in a row.** The list holds the indices found, the
last one first. -/
theorem length_lt_of_isChain {l : List (Fin n)}
    (hl : l.IsChain fun a b : Fin n => hops (1 + a) j < hops (1 + b) j) (hj : ∀ a ∈ l, a ≠ j) :
    l.length < n := by
  have hpos : 0 < n := j.pos
  -- every earlier find adds at least one hop
  have key : ∀ (a : Fin n) (l : List (Fin n)),
      (a :: l).IsChain (fun a b : Fin n => hops (1 + a) j < hops (1 + b) j) →
      (∀ b ∈ a :: l, b ≠ j) → hops (1 + a) j + l.length < n - 1 := by
    intro a l
    induction l generalizing a with
    | nil =>
      intro _ ha
      exact hops_succ_lt (ha a (by simp))
    | cons b l ih =>
      intro hc ha
      obtain ⟨hab, hc⟩ := List.isChain_cons_cons.mp hc
      have := ih b hc fun x hx => ha x (List.mem_cons_of_mem a hx)
      rw [List.length_cons]
      omega
  cases l with
  | nil => exact hpos
  | cons a l =>
    have := key a l hl hj
    rw [List.length_cons]
    omega

end Cyclic
