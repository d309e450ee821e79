import Mathlib.Data.List.TakeWhile
import Mathlib.Data.List.Infix

/-!
# Paths as text

A path is a text in which every name follows a separator `d`; the path without names is `d` alone.

* `Path.text`, `Path.components`: the text of a list of names, and the names in a text;
* `Path.components_text`: **they are inverse**, for names that are not empty and do not contain `d`;
* `Path.text_concat`: going down appends a name to the text;
* `Path.before_last`: going up cuts the text at the last separator, which is the first one of the
  reversed text.
-/

namespace Path

variable {α : Type*} {d : α} {l n : List α} {names : List (List α)}

/-- A name: it is not empty, and the separator is not in it. -/
def Name (d : α) (n : List α) : Prop := n ≠ [] ∧ d ∉ n

/-- The names, each after a separator. -/
def tail (d : α) (names : List (List α)) : List α := names.flatMap (d :: ·)

/-- The text of the path with these names. -/
def text (d : α) (names : List (List α)) : List α := if names = [] then [d] else tail d names

theorem tail_concat : tail d (names ++ [n]) = tail d names ++ d :: n := by
  simp [tail]

theorem text_nil : text d [] = [d] := rfl

theorem text_of_ne_nil (h : names ≠ []) : text d names = tail d names := if_neg h

theorem text_concat_eq : text d (names ++ [n]) = tail d names ++ d :: n := by
  rw [text_of_ne_nil (List.append_ne_nil_of_right_ne_nil _ (List.cons_ne_nil n [])), tail_concat]

theorem text_concat (h : names ≠ []) : text d (names ++ [n]) = text d names ++ d :: n := by
  rw [text_concat_eq, text_of_ne_nil h]

theorem head_text : (text d names).head? = some d := by
  cases names with
  | nil => rfl
  | cons n names => simp [text, tail]

/-- Only the path without names is the separator alone. -/
theorem text_eq_singleton (h : ∀ n ∈ names, Name d n) : text d names = [d] ↔ names = [] := by
  constructor
  · intro ht
    cases names with
    | nil => rfl
    | cons n names =>
      have hn : n = [] := by
        simp only [text, tail, List.cons_ne_nil, if_false, List.flatMap_cons, List.cons_append,
          List.cons.injEq, true_and, List.append_eq_nil_iff] at ht
        exact ht.1
      exact ((h n List.mem_cons_self).1 hn).elim
  · rintro rfl
    rfl

variable [DecidableEq α]

/-- The names in a text. -/
def components (d : α) (l : List α) : List (List α) := (l.splitOn d).filter (· ≠ [])

theorem components_concat (h : Name d n) : components d (l ++ d :: n) = components d l ++ [n] := by
  rw [components, List.splitOn_append_cons_self, List.filter_append, List.splitOn_eq_singleton h.2,
    List.filter_singleton]
  simp [components, h.1]

theorem components_text (h : ∀ n ∈ names, Name d n) : components d (text d names) = names := by
  have key : components d (tail d names) = names := by
    induction names using List.reverseRecOn with
    | nil => simp [components, tail]
    | append_singleton names n ih =>
      rw [tail_concat, components_concat (h n (by simp)),
        ih fun m hm => h m (List.mem_append_left _ hm)]
  by_cases hn : names = []
  · subst hn
    have : [d] = [] ++ d :: ([] : List α) := rfl
    rw [text_nil, components, this, List.splitOn_append_cons_self, List.splitOn_nil]
    simp
  · rwa [text_of_ne_nil hn]

theorem before_last (h : d ∉ n) :
    ((l ++ d :: n).reverse.dropWhile (· ≠ d)).tail.reverse = l := by
  have hn : ∀ b ∈ n.reverse, (b ≠ d) := fun b hb hd => h (hd ▸ List.mem_reverse.mp hb)
  rw [List.reverse_append, List.reverse_cons, List.append_assoc,
    List.dropWhile_append_of_pos fun b hb => decide_eq_true (hn b hb)]
  simp

end Path
