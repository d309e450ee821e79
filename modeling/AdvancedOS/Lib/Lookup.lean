import Mathlib.Data.List.Basic

/-!
# Looking up the first element with a key

A list is searched for the first element with a key, among all elements or among those with a
property `p`.

* `Lookup.filtered_iff`: **both searches find the same, for every key in question, exactly if every
  element without the property comes after one that has it and the same key.**
-/

namespace Lookup

variable {α κ : Type*} [DecidableEq κ] {p : α → Prop} [DecidablePred p] {key : α → κ} {k : κ}
  {l : List α}

/-- The first element with a key is the first of those with the property, if it has the property. -/
theorem filtered_of_first (h : ∀ a ∈ l.find? (key · = k), p a) :
    l.find? (key · = k) = l.find? fun a => p a ∧ key a = k := by
  cases hf : l.find? (key · = k) with
  | none =>
    have hno := List.find?_eq_none.mp hf
    refine (List.find?_eq_none.mpr fun a ha hk => hno a ha ?_).symm
    have hk : p a ∧ key a = k := by simpa using hk
    exact decide_eq_true hk.2
  | some a =>
    obtain ⟨hk, pre, post, hl, hpre⟩ := List.find?_eq_some_iff_append.mp hf
    have hk : key a = k := by simpa using hk
    refine (List.find?_eq_some_iff_append.mpr ⟨?_, pre, post, hl, fun b hb => ?_⟩).symm
    · simpa using ⟨h a hf, hk⟩
    · have hne := hpre b hb
      simp only [Bool.not_eq_true', decide_eq_false_iff_not] at hne ⊢
      exact fun hb => hne hb.2

theorem filtered_iff {K : κ → Prop} :
    (∀ k, K k → l.find? (key · = k) = l.find? fun a => p a ∧ key a = k) ↔
      ∀ pre a post, l = pre ++ a :: post → ¬ p a → K (key a) → ∃ b ∈ pre, p b ∧ key b = key a := by
  constructor
  · rintro h pre a post rfl hp hK
    have hsome : ((pre ++ a :: post).find? (key · = key a)).isSome := by
      rw [List.find?_isSome]
      exact ⟨a, List.mem_append_right _ List.mem_cons_self, decide_eq_true rfl⟩
    obtain ⟨b, hb⟩ := Option.isSome_iff_exists.mp hsome
    have hpb : p b ∧ key b = key a := by simpa using List.find?_some ((h _ hK).symm.trans hb)
    refine ⟨b, ?_, hpb⟩
    rw [List.find?_append] at hb
    cases hpre : pre.find? (key · = key a) with
    | some c =>
      rw [hpre] at hb
      cases hb
      exact List.mem_of_find?_eq_some hpre
    | none =>
      have ha : (a :: post).find? (key · = key a) = some a := by simp
      rw [hpre, Option.none_or, ha] at hb
      cases hb
      exact (hp hpb.1).elim
  · intro h k hK
    refine filtered_of_first fun a ha => ?_
    obtain ⟨hk, pre, post, hl, hpre⟩ := List.find?_eq_some_iff_append.mp ha
    have hk : key a = k := by simpa using hk
    by_contra hp
    obtain ⟨b, hb, -, hkb⟩ := h pre a post hl hp (hk ▸ hK)
    have hne := hpre b hb
    simp only [Bool.not_eq_true', decide_eq_false_iff_not] at hne
    exact hne (hkb.trans hk)

end Lookup
