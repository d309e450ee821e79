import Mathlib.Data.Nat.Notation

/-!
# Code that may leave without returning

`EStateM ε σ` describes code that works on a state `σ` and either returns to its caller or leaves
for good in one of the ways `ε`. `Ends x s Q E` says how `x`, started in `s`, ends: with `Q` on a
return and with `E` on an exit. The rules compute the weakest precondition along the code, so a
function is specified by one equivalence that its callers rewrite with.
-/

universe u

variable {ε σ α β : Type u}

/-- Started in `s`, `x` returns with `Q` or leaves with `E`. -/
def Ends (x : EStateM ε σ α) (s : σ) (Q : α → σ → Prop) (E : ε → σ → Prop) : Prop :=
  match x s with
  | .ok a s' => Q a s'
  | .error e s' => E e s'

variable {s : σ} {Q : α → σ → Prop} {R : β → σ → Prop} {E : ε → σ → Prop}

theorem ends_result (x : EStateM ε σ α) (P : EStateM.Result ε σ α → Prop) :
    Ends x s (fun a s' => P (.ok a s')) (fun e s' => P (.error e s')) ↔ P (x s) := by
  unfold Ends
  cases x s <;> rfl

theorem Ends.of_ok {x : EStateM ε σ α} {a : α} {s' : σ} (h : Ends x s Q E) (hx : x s = .ok a s') :
    Q a s' := by
  unfold Ends at h
  rwa [hx] at h

theorem Ends.of_error {x : EStateM ε σ α} {e : ε} {s' : σ} (h : Ends x s Q E)
    (hx : x s = .error e s') : E e s' := by
  unfold Ends at h
  rwa [hx] at h

theorem ends_of_eq_ok {x : EStateM ε σ α} {a : α} {s' : σ} (hx : x s = .ok a s') :
    Ends x s Q E ↔ Q a s' := by
  unfold Ends
  rw [hx]

theorem exists_ok_iff {x : EStateM ε σ α} {P : α → σ → Prop} :
    (∃ a s', x s = .ok a s' ∧ P a s') ↔ Ends x s P fun _ _ => False := by
  unfold Ends
  cases hx : x s with
  | ok a s' =>
    constructor
    · rintro ⟨b, s'', h, hP⟩
      cases h
      exact hP
    · exact fun h => ⟨a, s', rfl, h⟩
  | error e s' =>
    constructor
    · rintro ⟨b, s'', h, -⟩
      cases h
    · exact False.elim

theorem returns_iff {ρ : Type*} {r : Except ε ρ} {x : EStateM ε σ α}
    (h : Ends x s (fun _ _ => ∃ v, r = .ok v) fun e _ => r = .error e) :
    (∃ a s', x s = .ok a s') ↔ ∃ v, r = .ok v := by
  unfold Ends at h
  cases hx : x s with
  | ok a s' =>
    rw [hx] at h
    exact iff_of_true ⟨a, s', rfl⟩ h
  | error e s' =>
    rw [hx] at h
    refine iff_of_false ?_ ?_
    · rintro ⟨a, s'', h'⟩
      cases h'
    · rintro ⟨v, hv⟩
      rw [hv] at h
      cases h

theorem Ends.mono {x : EStateM ε σ α} {Q' : α → σ → Prop} {E' : ε → σ → Prop} (h : Ends x s Q E)
    (hQ : ∀ a s', Q a s' → Q' a s') (hE : ∀ e s', E e s' → E' e s') : Ends x s Q' E' := by
  unfold Ends at h ⊢
  split
  · rename_i a s' hx
    rw [hx] at h
    exact hQ a s' h
  · rename_i e s' hx
    rw [hx] at h
    exact hE e s' h

theorem Ends.of_forall {x : EStateM ε σ α} (hQ : ∀ a s', Q a s') (hE : ∀ e s', E e s') :
    Ends x s Q E := by
  unfold Ends
  cases x s with
  | ok a s' => exact hQ a s'
  | error e s' => exact hE e s'

theorem Ends.and {x : EStateM ε σ α} {Q' : α → σ → Prop} {E' : ε → σ → Prop} (h : Ends x s Q E)
    (h' : Ends x s Q' E') : Ends x s (fun a s' => Q a s' ∧ Q' a s') fun e s' => E e s' ∧ E' e s' := by
  unfold Ends at *
  cases hx : x s with
  | ok a s' =>
    rw [hx] at h h'
    exact ⟨h, h'⟩
  | error e s' =>
    rw [hx] at h h'
    exact ⟨h, h'⟩

theorem Ends.elim {x : EStateM ε σ α} {P : Prop} (h : Ends x s (fun _ _ => P) fun _ _ => P) : P := by
  unfold Ends at h
  cases hx : x s with
  | ok a s' => rwa [hx] at h
  | error e s' => rwa [hx] at h

@[simp] theorem ends_pure (a : α) : Ends (pure a : EStateM ε σ α) s Q E ↔ Q a s := Iff.rfl

@[simp] theorem ends_bind (x : EStateM ε σ α) (f : α → EStateM ε σ β) :
    Ends (x >>= f) s R E ↔ Ends x s (fun a s' => Ends (f a) s' R E) E := by
  change Ends (EStateM.bind x f) s R E ↔ _
  unfold Ends EStateM.bind
  cases x s <;> rfl

@[simp] theorem ends_map (x : EStateM ε σ α) (f : α → β) :
    Ends (f <$> x) s R E ↔ Ends x s (fun a s' => R (f a) s') E := by
  change Ends (EStateM.map f x) s R E ↔ _
  unfold Ends EStateM.map
  cases x s <;> rfl

@[simp] theorem ends_discard (x : EStateM ε σ α) {Q : PUnit → σ → Prop} :
    Ends (discard x) s Q E ↔ Ends x s (fun _ s' => Q ⟨⟩ s') E := ends_map x _

@[simp] theorem ends_get {Q : σ → σ → Prop} : Ends (get : EStateM ε σ σ) s Q E ↔ Q s s := Iff.rfl

@[simp] theorem ends_modify (f : σ → σ) {Q : PUnit → σ → Prop} :
    Ends (modify f : EStateM ε σ PUnit) s Q E ↔ Q ⟨⟩ (f s) := Iff.rfl

@[simp] theorem ends_throw (e : ε) : Ends (throw e : EStateM ε σ α) s Q E ↔ E e s := Iff.rfl

@[simp] theorem ends_ite (c : Prop) [Decidable c] (x y : EStateM ε σ α) :
    Ends (if c then x else y) s Q E ↔ (c → Ends x s Q E) ∧ (¬ c → Ends y s Q E) := by
  by_cases h : c <;> simp [h]

/-- A counting loop whose body leads from `I i` to `I (i + 1)`. -/
theorem Ends.forM_range {f : ℕ → EStateM ε σ PUnit} {I : ℕ → σ → Prop} {n : ℕ} (h0 : I 0 s)
    (hstep : ∀ i < n, ∀ s, I i s → Ends (f i) s (fun _ s' => I (i + 1) s') E) :
    Ends ((List.range n).forM f) s (fun _ s' => I n s') E := by
  have key : ∀ m k s, k + m = n → I k s →
      Ends ((List.range' k m).forM f) s (fun _ s' => I n s') E := by
    intro m
    induction m with
    | zero =>
      intro k s hk h
      rw [Nat.add_zero] at hk
      exact (ends_pure _).mpr (hk ▸ h)
    | succ m ih =>
      intro k s hk h
      show Ends (f k >>= fun _ => (List.range' (k + 1) m).forM f) s _ E
      rw [ends_bind]
      refine (hstep k (by omega) s h).mono (fun _ s' h' => ?_) fun _ _ he => he
      exact ih (k + 1) s' (by omega) h'
  rw [List.range_eq_range']
  exact key n 0 s (Nat.zero_add n) h0

/-! ## What code preserves -/

/-- If `I` holds before, it holds where `x` returns, and `E` where `x` leaves. -/
def Preserves (I : σ → Prop) (E : ε → σ → Prop) (x : EStateM ε σ α) : Prop :=
  ∀ s, I s → Ends x s (fun _ s' => I s') E

namespace Preserves

variable {I : σ → Prop} {x : EStateM ε σ α}

theorem pure (a : α) : Preserves I E (Pure.pure a : EStateM ε σ α) := fun _ h => (ends_pure a).mpr h

theorem get : Preserves I E (MonadState.get : EStateM ε σ σ) := fun _ h => ends_get.mpr h

theorem throw {e : ε} (h : ∀ s, I s → E e s) :
    Preserves I E (MonadExcept.throw e : EStateM ε σ α) := fun s hs => (ends_throw e).mpr (h s hs)

theorem modify {f : σ → σ} (h : ∀ s, I s → I (f s)) :
    Preserves I E (MonadState.modifyGet fun s => (PUnit.unit, f s) : EStateM ε σ PUnit) :=
  fun s hs => (ends_modify f).mpr (h s hs)

theorem bind {f : α → EStateM ε σ β} (hx : Preserves I E x) (hf : ∀ a, Preserves I E (f a)) :
    Preserves I E (x >>= f) := fun s hs =>
  (ends_bind x f).mpr ((hx s hs).mono (fun a s' h => hf a s' h) fun _ _ h => h)

theorem ite {c : Prop} [Decidable c] {y : EStateM ε σ α} (hx : Preserves I E x)
    (hy : Preserves I E y) : Preserves I E (if c then x else y) := by
  split
  · exact hx
  · exact hy

theorem forM {f : β → EStateM ε σ PUnit} (hf : ∀ b, Preserves I E (f b)) (l : List β) :
    Preserves I E (l.forM f) := by
  induction l with
  | nil => exact pure _
  | cons b l ih => exact bind (hf b) fun _ => ih

end Preserves

/-! ## Going over a list -/

section Visited

variable {δ τ : Type} {t : τ}

/-- The elements that `f` is called with when it is called with one after the other until it returns
`false` or leaves. -/
def visited (f : α → EStateM δ τ Bool) : List α → τ → List α
  | [], _ => []
  | a :: l, s => a ::
    match f a s with
    | .ok true s' => visited f l s'
    | _ => []

theorem isPrefix_visited (f : α → EStateM δ τ Bool) (l : List α) (s : τ) : visited f l s <+: l := by
  induction l generalizing s with
  | nil => exact List.prefix_rfl
  | cons a l ih =>
    rw [visited]
    apply (List.prefix_cons_inj a).mpr
    split
    · exact ih _
    · exact List.nil_prefix

/-- **An element is reached if all before it return `true`.** -/
theorem lt_length_visited {f : α → EStateM δ τ Bool} {l : List α} {k : ℕ} (hk : k < l.length) :
    k < (visited f l t).length ↔ ∃ t', (l.take k).allM f t = .ok true t' := by
  induction l generalizing k t with
  | nil => exact absurd hk (Nat.not_lt_zero k)
  | cons a l ih =>
    rw [visited, List.length_cons]
    cases k with
    | zero => exact iff_of_true (Nat.succ_pos _) ⟨t, rfl⟩
    | succ k =>
      have hk : k < l.length := Nat.lt_of_succ_lt_succ hk
      rw [List.take_succ_cons, List.allM_cons]
      simp only [bind, EStateM.bind]
      cases hr : f a t with
      | error e s' => simp
      | ok b s' =>
        cases b with
        | false => simp [Pure.pure, EStateM.pure]
        | true =>
          simp only [Nat.add_lt_add_iff_right, if_true]
          exact ih hk

end Visited

/-! ## Code on a part of the state -/

/-- Run `x` on the part of the state that `get` reads and `put` replaces. -/
def onPart {τ δ : Type u} (get : σ → τ) (put : τ → σ → σ) (exit : ε → δ) (x : EStateM ε τ α) :
    EStateM δ σ α := fun s =>
  match x (get s) with
  | .ok a t => .ok a (put t s)
  | .error e t => .error (exit e) (put t s)

theorem ends_onPart {τ δ : Type u} (get : σ → τ) (put : τ → σ → σ) (exit : ε → δ)
    (x : EStateM ε τ α) {E : δ → σ → Prop} : Ends (onPart get put exit x) s Q E ↔
      Ends x (get s) (fun a t => Q a (put t s)) (fun e t => E (exit e) (put t s)) := by
  unfold Ends onPart
  cases x (get s) <;> rfl

-- From here on code is reasoned about with the rules only.
attribute [irreducible] Ends
