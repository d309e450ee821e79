import Mathlib.Algebra.BigOperators.Group.List.Basic
import Mathlib.Algebra.Ring.Nat
import Mathlib.Data.List.Induction
import Mathlib.Order.Basic

/-!
# Pieces of a list

* `flatten_iff`: **pieces together are the beginning of a list exactly if each goes on where
  the ones before it stop**;
* `flatten_take_iff`: when this is so for pieces that all start from the front;
* `length_splitOnP`, `of_mem_splitOnP`: **where a list is split, there is one piece more than
  separators, and no separator in a piece.**
-/

namespace Pieces

variable {α : Type*} {l b : List α} {ps : List (List α)} {o n : ℕ}

/-- **The pieces are the beginning of `l` exactly if each goes on where the ones before it stop.** -/
theorem flatten_iff : ps.flatten <+: l ↔
    ∀ pre p post, ps = pre ++ p :: post → p <+: l.drop pre.flatten.length := by
  constructor
  · rintro ⟨t, ht⟩ pre p post rfl
    refine ⟨post.flatten ++ t, ?_⟩
    rw [← ht]
    simp
  · intro h
    induction ps using List.reverseRecOn with
    | nil => exact List.nil_prefix
    | append_singleton ps p ih =>
      obtain ⟨t, ht⟩ := ih fun pre q post hps => h pre q (post ++ [p]) (by simp [hps])
      obtain ⟨u, hu⟩ := h ps p [] rfl
      refine ⟨u, ?_⟩
      rw [← ht, List.drop_left] at hu
      rw [List.flatten_append, List.flatten_singleton, List.append_assoc, hu, ht]

theorem take_iff (hl : l <+: b) (hn : n ≤ b.length) : b.take n <+: l.drop o ↔
    n ≤ l.length - o ∧ ∀ i < n, l[o + i]? = l[i]? := by
  have hstart : ∀ i < l.length, l[i]? = b[i]? := fun i hi =>
    (List.getElem?_eq_getElem hi).trans (List.prefix_iff_getElem?.mp hl i hi).symm
  have hlen : (b.take n).length = n := List.length_take_of_le hn
  constructor
  · intro h
    have hle : n ≤ l.length - o := by
      have := h.length_le
      rwa [hlen, List.length_drop] at this
    refine ⟨hle, fun i hi => ?_⟩
    have hi' : i < (b.take n).length := hi.trans_eq hlen.symm
    rw [hstart i (by omega), ← List.getElem?_drop, List.prefix_iff_getElem?.mp h i hi',
      ← List.getElem?_eq_getElem hi', List.getElem?_take_of_lt hi]
  · rintro ⟨hle, hsame⟩
    rw [List.prefix_iff_getElem?]
    intro i hi
    have hn : i < n := hi.trans_eq hlen
    rw [← List.getElem?_eq_getElem hi, List.getElem?_drop, hsame i hn, hstart i (by omega),
      List.getElem?_take_of_lt hn]

theorem length_flatten {ns : List ℕ} (h : ∀ n ∈ ns, n ≤ b.length) :
    (ns.map fun n => b.take n).flatten.length = ns.sum := by
  induction ns with
  | nil => rfl
  | cons n ns ih =>
    obtain ⟨hn, hns⟩ := List.forall_mem_cons.mp h
    rw [List.map_cons, List.flatten_cons, List.length_append, ih hns, List.length_take_of_le hn,
      List.sum_cons]

/-- **Pieces from the start of `b`, one after the other, are the beginning of `l`** exactly if `l` is
long enough and has the same at every place where a piece goes on. -/
theorem flatten_take_iff {ns : List ℕ} (hl : l <+: b) (h : ∀ n ∈ ns, n ≤ b.length) :
    (ns.map fun n => b.take n).flatten <+: l ↔
      ns.sum ≤ l.length ∧ ∀ pre n post, ns = pre ++ n :: post → ∀ i < n, l[pre.sum + i]? = l[i]? := by
  constructor
  · intro hp
    refine ⟨(length_flatten h).symm.trans_le hp.length_le, ?_⟩
    rintro pre n post rfl
    have hn : n ≤ b.length := h n (by simp)
    have hpre : ∀ m ∈ pre, m ≤ b.length := fun m hm => h m (by simp [hm])
    have hnext := flatten_iff.mp hp (pre.map fun n => b.take n) (b.take n)
      (post.map fun n => b.take n) (by simp)
    rw [length_flatten hpre] at hnext
    exact ((take_iff hl hn).mp hnext).2
  · rintro ⟨hsum, hsame⟩
    refine flatten_iff.mpr fun pre p post hps => ?_
    obtain ⟨ns₁, ns₂, rfl, rfl, hrest⟩ := List.map_eq_append_iff.mp hps
    obtain ⟨n, ns₃, rfl, rfl, -⟩ := List.map_eq_cons_iff.mp hrest
    have hn : n ≤ b.length := h n (by simp)
    have hpre : ∀ m ∈ ns₁, m ≤ b.length := fun m hm => h m (by simp [hm])
    rw [length_flatten hpre]
    rw [List.sum_append, List.sum_cons] at hsum
    exact (take_iff hl hn).mpr ⟨by omega, hsame ns₁ n ns₃ rfl⟩

/-! ## Splitting -/

variable {p : α → Bool}

theorem length_splitOnP (p : α → Bool) (l : List α) : (l.splitOnP p).length = l.countP p + 1 := by
  induction l with
  | nil => rfl
  | cons x l ih =>
    rw [List.splitOnP_cons_eq_if_modifyHead]
    split_ifs with hx
    · rw [List.length_cons, ih, List.countP_cons_of_pos hx]
    · rw [List.length_modifyHead, ih, List.countP_cons_of_neg hx]

theorem of_mem_splitOnP {u : List α} (hu : u ∈ l.splitOnP p) : ∀ x ∈ u, p x = false := by
  induction l generalizing u with
  | nil =>
    rw [List.splitOnP_nil, List.mem_singleton] at hu
    subst hu
    exact fun x hx => absurd hx List.not_mem_nil
  | cons x l ih =>
    rw [List.splitOnP_cons_eq_if_modifyHead] at hu
    split_ifs at hu with hx
    · rcases List.mem_cons.mp hu with rfl | hu
      · exact fun x hx => absurd hx List.not_mem_nil
      · exact ih hu
    · obtain ⟨v, vs, hv⟩ := List.exists_cons_of_ne_nil (List.splitOnP_ne_nil p l)
      rw [hv] at ih hu
      rcases List.mem_cons.mp hu with rfl | hu
      · exact List.forall_mem_cons.mpr ⟨Bool.not_eq_true _ ▸ hx, ih List.mem_cons_self⟩
      · exact ih (List.mem_cons_of_mem v hu)

end Pieces
