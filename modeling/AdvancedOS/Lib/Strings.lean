import AdvancedOS.Lib.Bytes
import AdvancedOS.Lib.Copy

/-!
# Strings in memory

`StringAt m a l` says that the string `l`, with its terminating zero, is in the memory `m` at the
address `a`.

* `stringAt_iff`: the string by its offsets;
* `StringAt.length_lt`: **a string is shorter than the memory**;
* `StringAt.congr`: it stays where the memory stays the same;
* `StringAt.cut`: **a zero that is stored in it leaves two strings**;
* `BytesAt`: the bytes of a list, without a zero behind them.
-/

open Function (update)

variable {w : ℕ} {m m' : BitVec w → Byte} {a : BitVec w} {l u r : List Byte} {c d : Byte} {j k : ℕ}

/-- The string `l` with its terminating zero is at the address `a`. -/
def StringAt (m : BitVec w → Byte) : BitVec w → List Byte → Prop
  | a, [] => m a = 0
  | a, c :: l => m a = c ∧ c ≠ 0 ∧ StringAt m (a + 1) l

theorem add_ofNat_add (a : BitVec w) (j k : ℕ) :
    a + BitVec.ofNat w j + BitVec.ofNat w k = a + BitVec.ofNat w (j + k) := by
  rw [BitVec.add_assoc, ← BitVec.ofNat_add]

theorem add_ofNat_inj (hj : j < 2 ^ w) (hk : k < 2 ^ w)
    (h : a + BitVec.ofNat w j = a + BitVec.ofNat w k) : j = k := by
  have hoff := (toNat_sub_eq_iff (d := a) hk).mpr rfl
  rw [← h, (toNat_sub_eq_iff hj).mpr rfl] at hoff
  exact hoff

theorem stringAt_iff : StringAt m a l ↔ 0 ∉ l ∧
    ∀ k (h : k < (l ++ [0]).length), m (a + BitVec.ofNat w k) = (l ++ [0])[k] := by
  induction l generalizing a with
  | nil =>
    have hzero : a + BitVec.ofNat w 0 = a := BitVec.add_zero a
    constructor
    · intro h
      refine ⟨List.not_mem_nil, fun k hk => ?_⟩
      obtain rfl : k = 0 := Nat.lt_one_iff.mp hk
      rw [hzero]
      exact h
    · intro h
      have h0 := h.2 0 Nat.one_pos
      rw [hzero] at h0
      exact h0
  | cons c l ih =>
    have hzero : a + BitVec.ofNat w 0 = a := BitVec.add_zero a
    have hone : ∀ k, a + BitVec.ofNat w (k + 1) = a + 1 + BitVec.ofNat w k := fun k => by
      rw [Nat.add_comm, ← add_ofNat_add]
      rfl
    rw [StringAt, ih, List.mem_cons, not_or]
    constructor
    · intro ⟨h0, hc, hl, hrest⟩
      refine ⟨⟨hc.symm, hl⟩, fun k hk => ?_⟩
      cases k with
      | zero =>
        rw [hzero]
        exact h0
      | succ k =>
        rw [hone]
        exact hrest k (Nat.lt_of_succ_lt_succ hk)
    · intro ⟨⟨hc, hl⟩, hall⟩
      refine ⟨?_, Ne.symm hc, hl, fun k hk => ?_⟩
      · have h0 := hall 0 (Nat.succ_pos _)
        rw [hzero] at h0
        exact h0
      · have hk1 := hall (k + 1) (Nat.succ_lt_succ hk)
        rw [hone] at hk1
        exact hk1

theorem StringAt.noNul (h : StringAt m a l) : 0 ∉ l := (stringAt_iff.mp h).1

theorem StringAt.length_lt (h : StringAt m a l) : l.length < 2 ^ w := by
  obtain ⟨hnul, hall⟩ := stringAt_iff.mp h
  by_contra hlong
  have hpos : 0 < 2 ^ w := Nat.two_pow_pos w
  have hlen : (l ++ [0]).length = l.length + 1 := List.length_append
  have hk : l.length - 2 ^ w < l.length := by omega
  -- the address of the terminating zero is that of a character as well
  have hsame : a + BitVec.ofNat w (l.length - 2 ^ w) = a + BitVec.ofNat w l.length := by
    congr 1
    apply BitVec.eq_of_toNat_eq
    rw [BitVec.toNat_ofNat, BitVec.toNat_ofNat, ← Nat.mod_eq_sub_mod (not_lt.mp hlong)]
  have hchar := hall (l.length - 2 ^ w) (by omega)
  have hzero := hall l.length (by omega)
  rw [hsame, hzero, List.getElem_append_right le_rfl, List.getElem_append_left hk] at hchar
  simp only [Nat.sub_self, List.getElem_cons_zero] at hchar
  exact hnul (hchar ▸ List.getElem_mem hk)

theorem StringAt.congr (h : StringAt m a l) (hm : ∀ x ∈ span a (l.length + 1), m' x = m x) :
    StringAt m' a l := by
  obtain ⟨hnul, hall⟩ := stringAt_iff.mp h
  refine stringAt_iff.mpr ⟨hnul, fun k hk => ?_⟩
  rw [← hall k hk]
  rw [List.length_append, List.length_singleton] at hk
  exact hm _ (add_mem_span h.length_lt hk)

/-- **A zero that is stored in a string leaves two strings.** -/
theorem StringAt.cut (h : StringAt m a (u ++ d :: r)) :
    StringAt (update m (a + BitVec.ofNat w u.length) 0) a u ∧
      StringAt (update m (a + BitVec.ofNat w u.length) 0) (a + BitVec.ofNat w (u.length + 1)) r := by
  have hlen : (u ++ d :: r).length = u.length + (r.length + 1) := List.length_append
  have hlen' : (u ++ d :: r ++ [0]).length = u.length + (r.length + 1) + 1 := by
    rw [List.length_append, hlen, List.length_singleton]
  have hlt := h.length_lt
  obtain ⟨hnul, hall⟩ := stringAt_iff.mp h
  rw [List.mem_append, List.mem_cons, not_or, not_or] at hnul
  have hother : ∀ k, k < 2 ^ w → k ≠ u.length →
      update m (a + BitVec.ofNat w u.length) 0 (a + BitVec.ofNat w k) = m (a + BitVec.ofNat w k) :=
    fun k hk hne => Function.update_of_ne (fun he => hne (add_ofNat_inj hk (by omega) he)) _ _
  constructor
  · refine stringAt_iff.mpr ⟨hnul.1, fun k hk => ?_⟩
    rw [List.length_append, List.length_singleton] at hk
    by_cases hku : k = u.length
    · subst hku
      rw [Function.update_self, List.getElem_append_right le_rfl]
      simp only [Nat.sub_self, List.getElem_cons_zero]
    · have hk' : k < u.length := by omega
      have hk'' : k < (u ++ d :: r).length := by omega
      rw [hother k (by omega) hku, hall k (by omega), List.getElem_append_left hk'',
        List.getElem_append_left hk', List.getElem_append_left hk']
  · refine stringAt_iff.mpr ⟨hnul.2.2, fun k hk => ?_⟩
    rw [List.length_append, List.length_singleton] at hk
    rw [add_ofNat_add, hother _ (by omega) (by omega), hall _ (by omega)]
    have hsplit : u ++ d :: r ++ [0] = (u ++ [d]) ++ (r ++ [0]) := by
      rw [List.append_assoc, List.append_assoc, List.singleton_append, List.cons_append]
    have hud : (u ++ [d]).length = u.length + 1 := List.length_append
    simp only [hsplit]
    rw [List.getElem_append_right (by omega)]
    congr 1
    omega

/-! ## Bytes -/

/-- The bytes `u` are at the address `a`. -/
def BytesAt (m : BitVec w → Byte) (a : BitVec w) (u : List Byte) : Prop :=
  ∀ k (h : k < u.length), m (a + BitVec.ofNat w k) = u[k]

theorem StringAt.bytes (h : StringAt m a l) : BytesAt m a l := by
  obtain ⟨-, hall⟩ := stringAt_iff.mp h
  intro k hk
  rw [hall k (by rw [List.length_append]; omega), List.getElem_append_left hk]

namespace BytesAt

theorem head (h : BytesAt m a (c :: l)) : m a = c := by
  have h0 := h 0 (Nat.succ_pos _)
  have hzero : a + BitVec.ofNat w 0 = a := BitVec.add_zero a
  rwa [hzero] at h0

theorem tail (h : BytesAt m a (c :: l)) : BytesAt m (a + 1) l := by
  intro k hk
  have hsucc : a + 1 + BitVec.ofNat w k = a + BitVec.ofNat w (k + 1) := by
    rw [Nat.add_comm, ← add_ofNat_add]
    rfl
  rw [hsucc, h (k + 1) (Nat.succ_lt_succ hk), List.getElem_cons_succ]

theorem update {x : BitVec w} (h : BytesAt m a u) (hx : x ∉ span a u.length) (hu : u.length ≤ 2 ^ w)
    (c : Byte) : BytesAt (Function.update m x c) a u := by
  intro k hk
  rw [Function.update_of_ne, h k hk]
  rintro rfl
  exact hx (add_mem_span hu hk)

end BytesAt
