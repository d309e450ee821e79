import AdvancedOS.Keyboard.Model

/-!
# Keys that are lost

`getchar` returns a key only if it is pressed while `getchar` waits and holds none yet. A key
pressed at another time is cleared before it is read, or overwrites the one before it.

* `Reader.pending`: what `getchar` will return without a further interrupt;
* `Reader.run_eq`, `interrupt_pending`: what a step and an interrupt do to it;
* `Reader.exists_run_pending`: the reader, left alone, returns it;
* `delivered_iff`: **the keys pressed in an execution are delivered if and only if each of them is
  pressed while `getchar` waits with no key pending.**
-/

namespace AdvancedOS

variable {x y : Reader} {status scancode : Byte}

namespace Reader

/-- `getchar` is in its loop and has no character yet. -/
def Waits (x : Reader) : Prop := x.point = .test INVALID_KB_CHAR ∨ x.point = .copy

instance (x : Reader) : Decidable x.Waits := inferInstanceAs (Decidable (_ ∨ _))

/-- The reader, left alone, returns the characters of the keys pressed so far, in order, and each
once. -/
def Delivered (x : Reader) : Prop :=
  ∃ n y, Run.exec readerStep x (List.replicate n .run) = some y ∧ y.returned = x.pressed

/-- The character in `kb_char`. -/
def cell (x : Reader) : List Byte :=
  if x.kb.kbChar = INVALID_KB_CHAR then [] else [x.kb.kbChar]

/-- The characters that `getchar` has not returned yet, but will. -/
def pending (x : Reader) : List Byte :=
  match x.point with
  | .test c => if c = INVALID_KB_CHAR then x.cell else [c]
  | .copy => x.cell
  | .clearAgain c | .ret c => [c]
  | _ => []

/-- No key has been lost. -/
def Full (x : Reader) : Prop := x.returned ++ x.pending = x.pressed

/-- A key has been lost. -/
def Short (x : Reader) : Prop := (x.returned ++ x.pending).length < x.pressed.length

/-! ## Steps of the reader -/

theorem Waits.pending (h : x.Waits) : x.pending = x.cell := by
  unfold Reader.pending
  rcases h with h | h <;> rw [h]
  exact if_pos rfl

theorem pending_of_not_waits (h : ¬ x.Waits) (hp : y.point = x.point) : y.pending = x.pending := by
  unfold Reader.pending
  rw [hp]
  cases hx : x.point with
  | test c =>
    have hc : c ≠ INVALID_KB_CHAR := by
      rintro rfl
      exact h (.inl hx)
    simp only [if_neg hc]
  | copy => exact absurd (.inr hx) h
  | call | clear | clearAgain | ret | got | echo | erase | command => rfl

theorem run_eq (h : x.run = some y) :
    y.returned ++ y.pending = x.returned ++ x.pending ∧ y.pressed = x.pressed := by
  unfold Reader.run at h
  cases hx : x.point with
  | call | clear | ret | copy | clearAgain =>
    rw [hx] at h
    cases h
    simp [pending, hx, setChar, cell]
  | test c =>
    rw [hx] at h
    cases h
    by_cases hc : c = INVALID_KB_CHAR <;> simp [pending, hx, hc, cell]
  | got c =>
    simp only [hx] at h
    split_ifs at h <;> cases h <;> simp [pending, hx]
  | echo c =>
    simp only [hx] at h
    split_ifs at h <;> cases h <;> simp [pending, hx]
  | erase n => cases n <;> rw [hx] at h <;> cases h <;> simp [pending, hx]
  | command =>
    rw [hx] at h
    cases h

/-- How far `getchar` is from returning a pending character. -/
def distance (x : Reader) : ℕ :=
  match x.point with
  | .test c => if c = INVALID_KB_CHAR then 5 else 3
  | .copy => 4
  | .clearAgain _ => 2
  | .ret _ => 1
  | _ => 0

theorem exists_run_closer (h : x.pending ≠ []) : ∃ y, x.run = some y ∧ y.distance < x.distance := by
  unfold pending at h
  unfold Reader.run
  cases hx : x.point with
  | test c =>
    refine ⟨_, rfl, ?_⟩
    by_cases hc : c = INVALID_KB_CHAR <;> simp [distance, hx, hc]
  | copy =>
    have hk : x.kb.kbChar ≠ INVALID_KB_CHAR := by
      intro hk
      simp [hx, cell, hk] at h
    exact ⟨_, rfl, by simp [distance, hx, hk]⟩
  | clearAgain | ret => exact ⟨_, rfl, by simp [distance, hx]⟩
  | call | clear | got | echo | erase | command =>
    rw [hx] at h
    exact absurd rfl h

theorem exists_run_pending (x : Reader) : ∃ n y,
    Run.exec readerStep x (List.replicate n .run) = some y ∧
      y.returned = x.returned ++ x.pending := by
  induction hd : x.distance using Nat.strong_induction_on generalizing x with
  | _ d ih =>
    by_cases h : x.pending = []
    · exact ⟨0, x, rfl, by rw [h, List.append_nil]⟩
    · obtain ⟨y, hy, hlt⟩ := exists_run_closer h
      obtain ⟨n, z, hz, hr⟩ := ih _ (hd ▸ hlt) y rfl
      refine ⟨n + 1, z, ?_, hr.trans (run_eq hy).1⟩
      rw [List.replicate_succ, Run.exec, readerStep, hy]
      exact hz

theorem exec_run_eq : ∀ {n : ℕ} {x y : Reader},
    Run.exec readerStep x (List.replicate n .run) = some y →
      y.returned ++ y.pending = x.returned ++ x.pending ∧ y.pressed = x.pressed
  | 0, x, y, h => by
    cases h
    exact ⟨rfl, rfl⟩
  | n + 1, x, y, h => by
    rw [List.replicate_succ] at h
    obtain ⟨z, hz, h⟩ := Option.bind_eq_some_iff.mp h
    obtain ⟨h1, h2⟩ := exec_run_eq h
    obtain ⟨h3, h4⟩ := run_eq hz
    exact ⟨h1.trans h3, h2.trans h4⟩

theorem Full.delivered (h : x.Full) : x.Delivered := by
  obtain ⟨n, y, hy, hr⟩ := x.exists_run_pending
  exact ⟨n, y, hy, hr.trans h⟩

theorem Short.not_delivered (h : x.Short) : ¬ x.Delivered := by
  rintro ⟨n, y, hy, hr⟩
  rw [Short, ← (exec_run_eq hy).1, ← hr, List.length_append] at h
  omega

end Reader

/-! ## Interrupts -/

/-- A key is pressed while `getchar` waits with no key pending. A key that maps to the zero
character is not pressed while there is one. -/
def inTime (x : Reader) : KeyLabel → Prop
  | .interrupt status scancode => ∀ a ∈ keyPressed status scancode x.kb,
    x.Waits ∧ x.kb.kbChar = INVALID_KB_CHAR ∨
      a = INVALID_KB_CHAR ∧ ¬ (x.Waits ∧ x.kb.kbChar ≠ INVALID_KB_CHAR)
  | _ => True

instance (x : Reader) : ∀ l, Decidable (inTime x l)
  | .interrupt _ _ => inferInstanceAs (Decidable (∀ _ ∈ keyPressed _ _ _, _ ∧ _ ∨ _ ∧ _))
  | .run | .command _ => isTrue trivial

/-- **The handler stores the character of the key pressed, and nothing else.** -/
theorem keyboardHandlerMain_kbChar {kb kb' : Keyboard} {t : Option ℕ}
    (h : keyboardHandlerMain status scancode kb = some (kb', t)) :
    kb'.kbChar = (keyPressed status scancode kb).getD kb.kbChar := by
  unfold keyboardHandlerMain at h
  unfold keyPressed
  split_ifs at h with h1 h2 h3 h4 h5 h6 h7
  · cases h
    rw [if_pos (.inl h1)]
    rfl
  · cases h
    rw [if_pos (.inr (.inl h2))]
    rfl
  · cases h
    rw [if_pos (.inr (.inl h2))]
    rfl
  · cases h
    rw [if_pos (.inr (.inr (.inl h4)))]
    rfl
  · cases h
    rw [if_pos (.inr (.inr (.inr ⟨h5.1, by simp [h5.2]⟩)))]
    rfl
  · cases h
    rw [if_pos (.inr (.inr (.inr ⟨h6.1, by simp [h6.2]⟩)))]
    rfl
  · cases h
    rw [if_pos (.inr (.inr (.inr ⟨h7.1, by simp [h7.2]⟩)))]
    rfl
  · obtain ⟨a, ha, he⟩ := Option.bind_eq_some_iff.mp h
    cases he
    rw [if_neg, ha]
    · rfl
    · simp only [List.mem_cons, List.not_mem_nil, or_false]
      tauto

/-- **An interrupt loses a key unless it comes in time.** -/
theorem interrupt_pending (h : readerStep x (.interrupt status scancode) = some y) :
    y.returned = x.returned ∧
      (inTime x (.interrupt status scancode) →
        ∃ l, y.pending = x.pending ++ l ∧ y.pressed = x.pressed ++ l) ∧
      (¬ inTime x (.interrupt status scancode) →
        y.pending.length + x.pressed.length < x.pending.length + y.pressed.length) := by
  simp only [readerStep] at h
  split_ifs at h
  obtain ⟨⟨kb', t⟩, hk, he⟩ := Option.bind_eq_some_iff.mp h
  have hchar := keyboardHandlerMain_kbChar hk
  have hp : y.point = x.point := by
    cases he
    rfl
  have hpressed : y.pressed =
      x.pressed ++ (keyPressed status scancode x.kb).toList.filter (· ≠ 0) := by
    cases he
    rfl
  have hcell : y.kb.kbChar = (keyPressed status scancode x.kb).getD x.kb.kbChar := by
    cases he
    exact hchar
  refine ⟨by cases he; rfl, ?_⟩
  rw [hpressed]
  by_cases hw : x.Waits
  · have hw' : y.Waits := by
      unfold Reader.Waits
      rwa [hp]
    rw [hw.pending, hw'.pending, Reader.cell, Reader.cell, hcell]
    cases hkey : keyPressed status scancode x.kb with
    | none => simp [inTime, hkey]
    | some a =>
      by_cases h0 : x.kb.kbChar = INVALID_KB_CHAR <;> by_cases ha : a = INVALID_KB_CHAR
      all_goals simp_all [inTime, INVALID_KB_CHAR]
  · rw [Reader.pending_of_not_waits hw hp]
    cases hkey : keyPressed status scancode x.kb with
    | none => simp [inTime, hkey]
    | some a => by_cases ha : a = INVALID_KB_CHAR <;> simp_all [inTime, INVALID_KB_CHAR]

/-! ## Executions -/

theorem readerStep_full {l : KeyLabel} (hx : x.Full) (h : readerStep x l = some y) :
    (inTime x l → y.Full) ∧ (¬ inTime x l → y.Short) := by
  cases l with
  | run =>
    obtain ⟨h1, h2⟩ := Reader.run_eq h
    exact ⟨fun _ => (h1.trans hx).trans h2.symm, fun hg => absurd trivial hg⟩
  | command flag =>
    simp only [readerStep] at h
    split_ifs at h with hp
    cases h
    refine ⟨fun _ => ?_, fun hg => absurd trivial hg⟩
    simpa [Reader.Full, Reader.pending, hp] using hx
  | interrupt status scancode =>
    obtain ⟨hr, hin, hout⟩ := interrupt_pending h
    refine ⟨fun hg => ?_, fun hg => ?_⟩
    · obtain ⟨l, hl, hp⟩ := hin hg
      rw [Reader.Full, hr, hl, hp, ← List.append_assoc, hx]
    · have hx' := congrArg List.length hx
      have := hout hg
      rw [List.length_append] at hx'
      rw [Reader.Short, hr, List.length_append]
      omega

theorem readerStep_short {l : KeyLabel} (hx : x.Short) (h : readerStep x l = some y) :
    y.Short := by
  cases l with
  | run =>
    obtain ⟨h1, h2⟩ := Reader.run_eq h
    rwa [Reader.Short, h1, h2]
  | command flag =>
    simp only [readerStep] at h
    split_ifs at h with hp
    cases h
    simpa [Reader.Short, Reader.pending, hp] using hx
  | interrupt status scancode =>
    obtain ⟨hr, hin, hout⟩ := interrupt_pending h
    rw [Reader.Short, List.length_append] at hx ⊢
    by_cases hg : inTime x (.interrupt status scancode)
    · obtain ⟨l, hl, hp⟩ := hin hg
      rw [hr, hl, hp, List.length_append, List.length_append]
      omega
    · have := hout hg
      rw [hr]
      omega

/-- **Which keys are delivered.** After every execution, the reader, left alone, returns exactly the
characters of the keys pressed, in order and each once, if and only if each of these keys was
pressed while `getchar` was waiting with no key pending. -/
theorem delivered_iff {ls : List KeyLabel} (h : Run.exec readerStep .start ls = some x) :
    x.Delivered ↔ Run.Meets readerStep inTime .start ls := by
  have hruns := (Run.holds_or_broken (G := inTime) (I := Reader.Full) (B := Reader.Short)
    (fun _ _ _ hx he => readerStep_full hx he) (fun _ _ _ hx he => readerStep_short hx he) ls _ h).1
  rcases hruns rfl with ⟨hm, hx⟩ | ⟨hm, hx⟩
  · exact iff_of_true hx.delivered hm
  · exact iff_of_false hx.not_delivered hm

/-- The keys `a` and `b` with a backspace in between, each pressed when `getchar` waits again. -/
def threeKeys : List KeyLabel :=
  [.run, .run, .interrupt 1 0x1E] ++ List.replicate 9 .run ++ [.interrupt 1 0x0E] ++
    List.replicate 12 .run ++ [.interrupt 1 0x30]

theorem delivered_iff_threeKeys : ∃ x, Run.exec readerStep .start threeKeys = some x ∧
    x.pressed = [0x61, 0x08, 0x62] ∧ Run.Meets readerStep inTime .start threeKeys ∧
      (x.Delivered ↔ Run.Meets readerStep inTime .start threeKeys) :=
  ⟨_, rfl, rfl, by decide +kernel, delivered_iff rfl⟩

/-- The key `b` is pressed when `getline` is about to print `a`. -/
theorem not_delivered : ∃ x, Run.exec readerStep .start
    [.run, .run, .interrupt 1 0x1E, .run, .run, .run, .run, .run, .run, .interrupt 1 0x30] =
      some x ∧ x.pressed = [0x61, 0x62] ∧ ¬ x.Delivered := by
  refine ⟨_, rfl, rfl, Reader.Short.not_delivered ?_⟩
  unfold Reader.Short
  decide

end AdvancedOS
