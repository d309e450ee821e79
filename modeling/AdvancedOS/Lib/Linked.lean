import Mathlib.Data.Fintype.EquivFin
import Mathlib.Logic.Relation

/-!
# Linked lists in an array of links

`Linked next head l`: following `next` from `head` visits the list `l` and ends.

* `Linked.unique`: the list is determined by `head`;
* `Linked.nodup`: **a chain that ends visits nothing twice**;
* `Linked.push`: putting an element in front;
* `Linked.exists_of_acyclic`: **in a finite array, a walk that never comes back ends.**
-/

open Function (update)
open Relation

variable {α : Type*} {next next' : α → Option α} {head : Option α} {a b : α} {l l' : List α}

/-- Following `next` from `head` visits `l` and ends. -/
def Linked (next : α → Option α) : Option α → List α → Prop
  | head, [] => head = none
  | head, a :: l => head = some a ∧ Linked next (next a) l

/-- `b` comes next after `a`. -/
def Follows (next : α → Option α) (a b : α) : Prop := next a = some b

namespace Linked

theorem head_eq (h : Linked next head l) : head = l.head? := by
  cases l with
  | nil => exact h
  | cons => exact h.1

theorem congr (h : Linked next head l) (hn : ∀ a ∈ l, next' a = next a) : Linked next' head l := by
  induction l generalizing head with
  | nil => exact h
  | cons a l ih =>
    refine ⟨h.1, ?_⟩
    rw [hn a List.mem_cons_self]
    exact ih h.2 fun b hb => hn b (List.mem_cons_of_mem a hb)

theorem unique (h : Linked next head l) (h' : Linked next head l') : l = l' := by
  induction l generalizing head l' with
  | nil =>
    cases l' with
    | nil => rfl
    | cons b l' => exact absurd (h.symm.trans h'.1) (by simp)
  | cons a l ih =>
    cases l' with
    | nil => exact absurd (h.1.symm.trans h') (by simp)
    | cons b l' =>
      obtain rfl : a = b := Option.some.inj (h.1.symm.trans h'.1)
      rw [ih h.2 h'.2]

theorem of_mem (h : Linked next head l) (ha : a ∈ l) :
    ∃ l', Linked next (next a) l' ∧ l'.length < l.length := by
  induction l generalizing head with
  | nil => cases ha
  | cons b l ih =>
    rcases List.mem_cons.mp ha with rfl | ha
    · exact ⟨l, h.2, Nat.lt_succ_self _⟩
    · obtain ⟨l', hl', hlt⟩ := ih h.2 ha
      exact ⟨l', hl', Nat.lt_succ_of_lt hlt⟩

theorem nodup (h : Linked next head l) : l.Nodup := by
  induction l generalizing head with
  | nil => exact List.nodup_nil
  | cons a l ih =>
    refine List.nodup_cons.mpr ⟨fun ha => ?_, ih h.2⟩
    -- what follows the second visit would be as long as what follows the first
    obtain ⟨l', hl', hlt⟩ := of_mem h.2 ha
    rw [unique h.2 hl'] at hlt
    exact Nat.lt_irrefl _ hlt

theorem push [DecidableEq α] (h : Linked next head l) (ha : a ∉ l) :
    Linked (update next a head) (some a) (a :: l) := by
  refine ⟨rfl, ?_⟩
  rw [Function.update_self]
  refine h.congr fun b hb => Function.update_of_ne ?_ ..
  rintro rfl
  exact ha hb

/-! ## Walks that end -/

theorem reach (h : Linked next (some a) l) (hb : b ∈ l) : ReflTransGen (Follows next) a b := by
  induction l generalizing a with
  | nil => cases hb
  | cons c l ih =>
    obtain rfl : a = c := Option.some.inj h.1
    rcases List.mem_cons.mp hb with rfl | hb
    · exact .refl
    · cases l with
      | nil => cases hb
      | cons d l =>
        have hd : Linked next (some d) (d :: l) := ⟨rfl, h.2.2⟩
        exact .head h.2.1 (ih hd hb)

/-- **In a finite array, a walk that never comes back ends.** -/
theorem exists_of_acyclic [Finite α]
    (h : ∀ b, ReflTransGen (Follows next) a b → ¬ TransGen (Follows next) b b) :
    ∃ l, Linked next (some a) l := by
  let after (x y : {b // ReflTransGen (Follows next) a b}) : Prop :=
    TransGen (Follows next) y.1 x.1
  have : IsTrans _ after := ⟨fun _ _ _ hxy hyz => hyz.trans hxy⟩
  have : Std.Irrefl after := ⟨fun x hx => h x.1 x.2 hx⟩
  have hwf : WellFounded after := Finite.wellFounded_of_trans_of_irrefl after
  have hall : ∀ x : {b // ReflTransGen (Follows next) a b}, ∃ l, Linked next (some x.1) l := by
    intro x
    induction x using hwf.induction with
    | _ x ih =>
      cases hx : next x.1 with
      | none => exact ⟨[x.1], rfl, hx⟩
      | some y =>
        have hy : Follows next x.1 y := hx
        obtain ⟨l, hl⟩ := ih ⟨y, x.2.tail hy⟩ (.single hy)
        exact ⟨x.1 :: l, rfl, by rwa [hx]⟩
  exact hall ⟨a, .refl⟩

end Linked
