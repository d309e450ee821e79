import Mathlib.Data.Nat.Notation
import Mathlib.Logic.Relation

/-!
# Runs of a partial step function

A system is a partial function `step : S → L → Option S`. A run may be restricted by a guard
`G : S → L → Prop` on its steps, read in the state before the step.

* `exec`: the state after a list of labels;
* `Reach step G s₀ s`: `s` is reached from `s₀` by steps that meet `G`;
* `Reach.invariant`: **what holds at the start and is kept by every step holds of every reached
  state**; `Reach.invariant₂` carries a second, already established invariant along;
* `always_iff_meets`: **where a step keeps the invariant exactly when it meets the guard, an
  execution keeps it exactly when all its steps do**;
* `keeps_iff_meets`: the same for executions that may stop, with `Keeps` saying that they do not;
* `holds_or_broken`: the same where a step that misses the guard can never be made up for;
* `reaches_of_rank`: **a rank that every step which counts makes smaller bounds how many of them can
  pass before something happens**;
* `reach_of_exec`: an executed list of labels whose steps meet the guard is a run.
-/

namespace Run

variable {S L : Type*} {step : S → L → Option S} {G H : S → L → Prop} {s₀ s s' : S} {l : L}

/-- The state after the labels `ls`. -/
def exec (step : S → L → Option S) : S → List L → Option S
  | s, [] => some s
  | s, l :: ls => (step s l).bind fun s' => exec step s' ls

/-- Every step of the execution meets the guard. -/
def Meets (step : S → L → Option S) (G : S → L → Prop) : S → List L → Prop
  | _, [] => True
  | s, l :: ls => G s l ∧ ∀ s' ∈ step s l, Meets step G s' ls

instance Meets.decidable [∀ s l, Decidable (G s l)] :
    ∀ (s : S) (ls : List L), Decidable (Meets step G s ls)
  | _, [] => isTrue trivial
  | s, l :: ls =>
    match h : step s l with
    | none => decidable_of_iff (G s l) (by simp [Meets, h])
    | some s' =>
      have := Meets.decidable s' ls
      decidable_of_iff (G s l ∧ Meets step G s' ls) (by simp [Meets, h])

theorem meets_of_forall (hG : ∀ s l, G s l) : ∀ (ls : List L) (s : S), Meets step G s ls
  | [], _ => trivial
  | l :: ls, s => ⟨hG s l, fun s' _ => meets_of_forall hG ls s'⟩

/-- The states reached from `s₀` by steps that meet `G`. -/
inductive Reach (step : S → L → Option S) (G : S → L → Prop) (s₀ : S) : S → Prop
  | init : Reach step G s₀ s₀
  | step {s s' : S} (l : L) : Reach step G s₀ s → G s l → step s l = some s' →
      Reach step G s₀ s'

theorem Reach.invariant {I : S → Prop} (h0 : I s₀)
    (hs : ∀ s l s', I s → G s l → step s l = some s' → I s') (h : Reach step G s₀ s) : I s := by
  induction h with
  | init => exact h0
  | step l _ hg he ih => exact hs _ l _ ih hg he

theorem Reach.invariant₂ {I J : S → Prop} (hJ : ∀ s, Reach step G s₀ s → J s) (h0 : I s₀)
    (hs : ∀ s l s', J s → I s → G s l → step s l = some s' → I s') (h : Reach step G s₀ s) :
    I s := by
  induction h with
  | init => exact h0
  | step l hr hg he ih => exact hs _ l _ (hJ _ hr) ih hg he

theorem Reach.mono (hGH : ∀ s l, G s l → H s l) (h : Reach step G s₀ s) : Reach step H s₀ s := by
  induction h with
  | init => exact .init
  | step l _ hg he ih => exact .step l ih (hGH _ _ hg) he

theorem Reach.trans {s₁ : S} (h₁ : Reach step G s₀ s₁) (h₂ : Reach step G s₁ s) :
    Reach step G s₀ s := by
  induction h₂ with
  | init => exact h₁
  | step l _ hg he ih => exact .step l ih hg he

/-- `I` holds of every state of the execution. -/
def Always (step : S → L → Option S) (I : S → Prop) : S → List L → Prop
  | s, [] => I s
  | s, l :: ls => I s ∧ ∀ s' ∈ step s l, Always step I s' ls

theorem Always.head {I : S → Prop} {ls : List L} (h : Always step I s ls) : I s := by
  cases ls with
  | nil => exact h
  | cons => exact h.1

/-- **Along an execution whose steps all go through, the guard is what keeps the invariant.** -/
theorem always_iff_meets {I : S → Prop}
    (hs : ∀ s l s', I s → step s l = some s' → (I s' ↔ G s l)) :
    ∀ (ls : List L) (s : S), I s → (exec step s ls).isSome →
      (Always step I s ls ↔ Meets step G s ls)
  | [], _, h, _ => iff_of_true h trivial
  | l :: ls, s, h, he => by
    obtain ⟨s₁, h₁, h₂⟩ : ∃ s₁, step s l = some s₁ ∧ (exec step s₁ ls).isSome := by
      cases h₁ : step s l with
      | none => simp [exec, h₁] at he
      | some s₁ => exact ⟨s₁, rfl, by simpa [exec, h₁] using he⟩
    have hiff := hs s l s₁ h h₁
    simp only [Always, Meets, h₁, Option.mem_def, Option.some.injEq, forall_eq']
    constructor
    · rintro ⟨-, ha⟩
      exact ⟨hiff.mp ha.head, (always_iff_meets hs ls s₁ ha.head h₂).mp ha⟩
    · rintro ⟨hg, hm⟩
      exact ⟨h, (always_iff_meets hs ls s₁ (hiff.mpr hg) h₂).mpr hm⟩

/-- All steps of the execution go through, and `I` holds of every state. -/
def Keeps (step : S → L → Option S) (I : S → Prop) : S → List L → Prop
  | s, [] => I s
  | s, l :: ls => I s ∧ ∃ s' ∈ step s l, Keeps step I s' ls

theorem Keeps.head {I : S → Prop} {ls : List L} (h : Keeps step I s ls) : I s := by
  cases ls with
  | nil => exact h
  | cons => exact h.1

/-- **Where a step goes through and keeps the invariant exactly when it meets the guard.** -/
theorem keeps_iff_meets {I : S → Prop} (hs : ∀ s l, I s → ((∃ s' ∈ step s l, I s') ↔ G s l)) :
    ∀ (ls : List L) (s : S), I s → (Keeps step I s ls ↔ Meets step G s ls)
  | [], _, h => iff_of_true h trivial
  | l :: ls, s, h => by
    constructor
    · rintro ⟨-, s', hs', hk⟩
      have hk' := (keeps_iff_meets hs ls s' hk.head).mp hk
      refine ⟨(hs s l h).mp ⟨s', hs', hk.head⟩, fun s₁ h₁ => ?_⟩
      obtain rfl : s' = s₁ := Option.mem_unique hs' h₁
      exact hk'
    · rintro ⟨hg, hm⟩
      obtain ⟨s', hs', hI⟩ := (hs s l h).mpr hg
      exact ⟨h, s', hs', (keeps_iff_meets hs ls s' hI).mpr (hm s' hs')⟩

/-- **A step that misses the guard breaks the invariant for good.** At the end of an execution `I`
holds exactly if all steps met the guard, and `B` holds otherwise. -/
theorem holds_or_broken {I B : S → Prop}
    (hs : ∀ s l s', I s → step s l = some s' → (G s l → I s') ∧ (¬ G s l → B s'))
    (hb : ∀ s l s', B s → step s l = some s' → B s') :
    ∀ (ls : List L) (s : S), exec step s ls = some s' →
      (I s → Meets step G s ls ∧ I s' ∨ ¬ Meets step G s ls ∧ B s') ∧ (B s → B s')
  | [], s, he => by
    cases he
    exact ⟨fun h => .inl ⟨trivial, h⟩, id⟩
  | l :: ls, s, he => by
    obtain ⟨s₁, h₁, h₂⟩ := Option.bind_eq_some_iff.mp he
    obtain ⟨hI, hB⟩ := holds_or_broken hs hb ls s₁ h₂
    refine ⟨fun h => ?_, fun h => hB (hb s l s₁ h h₁)⟩
    simp only [Meets, h₁, Option.mem_def, Option.some.injEq, forall_eq']
    by_cases hg : G s l
    · simpa [hg] using hI ((hs s l s₁ h h₁).1 hg)
    · exact .inr ⟨fun hm => hg hm.1, hB ((hs s l s₁ h h₁).2 hg)⟩

theorem reach_of_exec : ∀ (ls : List L) (s : S), exec step s ls = some s' → Meets step G s ls →
    Reach step G s s'
  | [], s, he, _ => by
    cases he
    exact .init
  | l :: ls, s, he, hm => by
    obtain ⟨s₁, h₁, h₂⟩ := Option.bind_eq_some_iff.mp he
    exact (Reach.step l .init hm.1 h₁).trans (reach_of_exec ls s₁ h₂ (hm.2 s₁ h₁))

theorem exists_reach {P : S → Prop} [DecidablePred P] [∀ s l, Decidable (G s l)] (ls : List L)
    (s : S) (hm : Meets step G s ls) (h : (exec step s ls).any (fun s' => P s') = true) :
    ∃ s', Reach step G s s' ∧ P s' := by
  obtain ⟨s', he, hP⟩ := Option.any_eq_true _ _ |>.mp h
  exact ⟨s', reach_of_exec ls s he hm, by simpa using hP⟩

/-- **The rank rule.** From a state of rank `n` a step reaches `Q`, or leads to a state of no greater
rank, and of a smaller one if the step counts. Then `Q` is reached after at most `n` steps that
count. -/
theorem reaches_of_rank {P : ℕ → S → Prop} {Q : S → Prop} {counts : L → Bool}
    (hpos : ∀ {n s}, P n s → 0 < n)
    (hs : ∀ {n s l s'}, P n s → G s l → step s l = some s' →
      Q s' ∨ ∃ n', P n' s' ∧ n' + [l].countP counts ≤ n) :
    ∀ (ls : List L) {n : ℕ} {s : S}, P n s → (exec step s ls).isSome → Meets step G s ls →
      n ≤ ls.countP counts →
      ∃ ls₁ ls₂, ls = ls₁ ++ ls₂ ∧ ls₁.countP counts ≤ n ∧ ∃ y ∈ exec step s ls₁, Q y
  | [], n, s, h, _, _, hn => absurd (hpos h) (by simpa using hn)
  | l :: ls, n, s, h, he, hm, hn => by
    obtain ⟨y, hy, he⟩ : ∃ y, step s l = some y ∧ (exec step y ls).isSome := by
      cases hy : step s l with
      | none => simp [exec, hy] at he
      | some y => exact ⟨y, rfl, by simpa [exec, hy] using he⟩
    have hcons : ∀ ls, (l :: ls).countP counts = [l].countP counts + ls.countP counts := by
      intro ls
      show List.countP _ ([l] ++ ls) = _
      exact List.countP_append
    rw [hcons] at hn
    rcases hs h hm.1 hy with hQ | ⟨n', h', hn'⟩
    · have hle : [l].countP counts ≤ 1 := List.countP_le_length
      exact ⟨[l], ls, rfl, Nat.le_trans hle (hpos h), y, by simp [exec, hy], hQ⟩
    · obtain ⟨ls₁, ls₂, rfl, hle, z, hz, hQ⟩ :=
        reaches_of_rank hpos hs ls h' he (hm.2 y hy) (by omega)
      refine ⟨l :: ls₁, ls₂, rfl, ?_, z, by simpa [exec, hy] using hz, hQ⟩
      rw [hcons]
      omega

end Run
