import AdvancedOS.Lib.Pieces
import AdvancedOS.Lib.Strings
import AdvancedOS.Str.Code
import AdvancedOS.Task.Model

/-!
# Cutting a string into tokens

`strsep` stores a zero at the first delimiter and moves the pointer that it is given behind it. Here it
works on the memory, as in the source.

* `strsepAt`, `strsepAll`: one call, and calls until the pointer is `NULL`;
* `strsepAll_splits`: **the tokens are the pieces of the string between its delimiters**;
* `strsep_refines`: `strsep` on values does what it does in memory.
-/

namespace AdvancedOS

open Function (update)

variable {m : Mem} {a p : Word} {delims : CStr} {l u r : List Byte} {c d : Byte} {n : ℕ}

/-! ## The functions -/

/-- `strchr`: the string from the first `c` on. -/
def strchr (c : Byte) : List Byte → Option (List Byte)
  | [] => if c = 0 then some [] else none
  | x :: s => if x = c then some (x :: s) else strchr c s

/-- The loop of `strsep`, where `*str` is `p`: `*str` afterwards, and the memory. The loop gets `n`
rounds. -/
def strsepLoop (delims : CStr) : ℕ → Word → Mem → Option (Option Word × Mem)
  | 0, _, _ => none
  | n + 1, p, m =>
    if m p = 0 then some (none, m)
    else if (strchr (m p) delims.toList).isSome then some (some (p + 1), update m p 0)
    else strsepLoop delims n (p + 1) m

/-- `strsep`: the token, `*str` afterwards, and the memory. -/
def strsepAt (delims : CStr) (n : ℕ) : Option Word → Mem → Option (Option Word × Option Word × Mem)
  | none, m => some (none, none, m)
  | some p, m => (strsepLoop delims n p m).map fun r => (some p, r)

/-- `strsep` is called until `*str` is `NULL`: the tokens, and the memory. -/
def strsepAll (delims : CStr) : ℕ → Option Word → Mem → Option (List Word × Mem)
  | _, none, m => some ([], m)
  | 0, some _, _ => none
  | n + 1, some p, m => do
    let (token, str, m) ← strsepAt delims (n + 1) (some p) m
    let (tokens, m) ← strsepAll delims n str m
    return (token.toList ++ tokens, m)

theorem strsepAll_none (n : ℕ) (m : Mem) : strsepAll delims n none m = some ([], m) := by
  cases n <;> rfl

theorem strchr_isSome (hc : c ≠ 0) (s : List Byte) : (strchr c s).isSome ↔ c ∈ s := by
  induction s with
  | nil =>
    rw [strchr, if_neg hc]
    exact iff_of_false Bool.false_ne_true List.not_mem_nil
  | cons x s ih =>
    rw [strchr, List.mem_cons]
    by_cases hx : x = c
    · rw [if_pos hx]
      exact iff_of_true rfl (.inl hx.symm)
    · rw [if_neg hx, ih]
      exact ⟨.inr, fun h => h.resolve_left (Ne.symm hx)⟩

/-! ## One call -/

theorem strsepLoop_step (h0 : m p ≠ 0) (hp : m p ∉ delims.toList) (n : ℕ) :
    strsepLoop delims (n + 1) p m = strsepLoop delims n (p + 1) m := by
  rw [strsepLoop, if_neg h0, if_neg (mt (strchr_isSome h0 _).mp hp)]

theorem succ_add_ofNat (a : Word) (k : ℕ) :
    a + 1 + BitVec.ofNat 32 k = a + BitVec.ofNat 32 (k + 1) := by
  rw [Nat.add_comm, ← add_ofNat_add]
  rfl

/-- A string without delimiters is the last token. -/
theorem strsepLoop_last (h : StringAt m a l) (hl : ∀ c ∈ l, c ∉ delims.toList) (hn : l.length < n) :
    strsepLoop delims n a m = some (none, m) := by
  induction l generalizing a n with
  | nil =>
    obtain ⟨n, rfl⟩ := Nat.exists_eq_succ_of_ne_zero (Nat.ne_zero_of_lt hn)
    exact if_pos h
  | cons c l ih =>
    obtain ⟨n, rfl⟩ := Nat.exists_eq_succ_of_ne_zero (Nat.ne_zero_of_lt hn)
    obtain ⟨hc, h0, h⟩ := h
    subst hc
    rw [strsepLoop_step h0 (hl _ List.mem_cons_self)]
    exact ih h (fun c hc => hl c (List.mem_cons_of_mem _ hc)) (Nat.lt_of_succ_lt_succ hn)

/-- A string is cut at its first delimiter. -/
theorem strsepLoop_cut (h : StringAt m a (u ++ d :: r)) (hu : ∀ c ∈ u, c ∉ delims.toList)
    (hd : d ∈ delims.toList) (hn : u.length < n) : strsepLoop delims n a m =
      some (some (a + BitVec.ofNat 32 (u.length + 1)), update m (a + BitVec.ofNat 32 u.length) 0) := by
  induction u generalizing a n with
  | nil =>
    obtain ⟨n, rfl⟩ := Nat.exists_eq_succ_of_ne_zero (Nat.ne_zero_of_lt hn)
    obtain ⟨hc, h0, -⟩ := h
    subst hc
    have hzero : a + BitVec.ofNat 32 0 = a := BitVec.add_zero a
    rw [strsepLoop, if_neg h0, if_pos ((strchr_isSome h0 _).mpr hd), List.length_nil, hzero]
    rfl
  | cons c u ih =>
    obtain ⟨n, rfl⟩ := Nat.exists_eq_succ_of_ne_zero (Nat.ne_zero_of_lt hn)
    obtain ⟨hc, h0, h⟩ := h
    subst hc
    rw [strsepLoop_step h0 (hu _ List.mem_cons_self),
      ih h (fun c hc => hu c (List.mem_cons_of_mem _ hc)) (Nat.lt_of_succ_lt_succ hn),
      succ_add_ofNat, succ_add_ofNat, List.length_cons]

/-! ## All calls -/

/-- The delimiters. -/
def isDelim (delims : CStr) (c : Byte) : Bool := decide (c ∈ delims.toList)

/-- **The tokens are the pieces of the string between its delimiters.** -/
theorem strsepAll_splits (delims : CStr) (h : StringAt m a l) (hn : l.length < n) :
    ∃ tokens m', strsepAll delims n (some a) m = some (tokens, m') ∧
      List.Forall₂ (StringAt m') tokens (l.splitOnP (isDelim delims)) ∧
      ∀ x, x ∉ span a l.length → m' x = m x := by
  induction n generalizing a l m with
  | zero => exact absurd hn (Nat.not_lt_zero _)
  | succ n ih =>
    cases hfirst : l.find? (isDelim delims) with
    | none =>
      have hnone : ∀ c ∈ l, isDelim delims c = false := fun c hc => by
        simpa using List.find?_eq_none.mp hfirst c hc
      have hnot : ∀ c ∈ l, c ∉ delims.toList := fun c hc => of_decide_eq_false (hnone c hc)
      refine ⟨[a], m, ?_, ?_, fun _ _ => rfl⟩
      · simp only [strsepAll, strsepAt, strsepLoop_last h hnot hn, Option.map_some,
          Option.bind_eq_bind, Option.bind_some, strsepAll_none]
        rfl
      · rw [List.splitOnP_eq_singleton hnone]
        exact .cons h .nil
    | some d =>
      obtain ⟨hd, u, r, rfl, hu⟩ := List.find?_eq_some_iff_append.mp hfirst
      have hnone : ∀ c ∈ u, isDelim delims c = false := fun c hc => by simpa using hu c hc
      have hnot : ∀ c ∈ u, c ∉ delims.toList := fun c hc => of_decide_eq_false (hnone c hc)
      have hlen : (u ++ d :: r).length = u.length + (r.length + 1) := List.length_append
      have hlt := h.length_lt
      obtain ⟨hleft, hright⟩ := h.cut
      obtain ⟨tokens, m', hall, hheld, hframe⟩ := ih hright (by omega)
      refine ⟨a :: tokens, m', ?_, ?_, fun x hx => ?_⟩
      · simp only [strsepAll, strsepAt,
          strsepLoop_cut h hnot (of_decide_eq_true hd) (Nat.lt_of_le_of_lt (by omega) hn),
          Option.map_some, Option.bind_eq_bind, Option.bind_some, hall]
        rfl
      · rw [List.splitOnP_append_cons_of_forall_mem hnone d hd]
        -- the first token lies in front of everything that is written to later
        refine .cons (hleft.congr fun x hx => hframe x (span_add_disjoint (by omega) hx)) hheld
      · rw [hlen] at hx
        have hq : a + BitVec.ofNat 32 u.length ∈ span a (u.length + (r.length + 1)) :=
          add_mem_span (by omega) (by omega)
        rw [hframe x fun hx' => hx (span_subset (by omega) (span_add_subset _ hx'))]
        refine Function.update_of_ne (fun he => hx ?_) _ _
        rw [he]
        exact hq

/-! ## Values -/

/-- The pointer `str` points to the string `s` in the memory, or both are `NULL`. -/
def Points (m : Mem) : Option Word → Option CStr → Prop := Option.Rel fun p s => StringAt m p s.toList

theorem notMem_before (s : CStr) (d : Byte) : d ∉ (s.before d).toList := fun h => by
  simpa using List.mem_takeWhile_imp h

/-- **`strsep` on values does what it does in memory.** -/
theorem strsep_refines {str : Option Word} {s : Option CStr} (h : Points m str s)
    (hdelims : delims.toList = [d]) (hn : ∀ x ∈ s, x.length < n) :
    ∃ token str' m', strsepAt delims n str m = some (token, str', m') ∧
      Points m' token (strsep d s).1 ∧ Points m' str' (strsep d s).2 := by
  have hmem : ∀ {c : Byte}, c ∈ delims.toList ↔ c = d := by
    intro c
    rw [hdelims, List.mem_singleton]
  cases h with
  | none => exact ⟨none, none, m, rfl, .none, .none⟩
  | @some a s h =>
    have hn : s.toList.length < n := hn s rfl
    cases hx : s.after d with
    | none =>
      have hd : d ∉ s.toList := fun hin => by simp [CStr.after, hin] at hx
      have hlast : strsepLoop delims n a m = some (none, m) :=
        strsepLoop_last h (fun c hc hcd => hd (hmem.mp hcd ▸ hc)) hn
      refine ⟨some a, none, m, ?_, ?_, ?_⟩
      · rw [strsepAt, hlast]
        rfl
      · rw [strsep, CStr.before_eq_self hx]
        exact .some h
      · rw [strsep, hx]
        exact .none
    | some x =>
      have hsplit := CStr.before_append_after hx
      rw [← hsplit] at h hn
      have hlen : (s.before d).toList.length < n := by
        rw [List.length_append] at hn
        omega
      have hcut := strsepLoop_cut h (fun c hc hcd => notMem_before s d (hmem.mp hcd ▸ hc))
        (hmem.mpr rfl) hlen
      obtain ⟨hleft, hright⟩ := h.cut
      refine ⟨some a, some (a + BitVec.ofNat 32 ((s.before d).toList.length + 1)),
        update m (a + BitVec.ofNat 32 (s.before d).toList.length) 0, ?_, ?_, ?_⟩
      · rw [strsepAt, hcut]
        rfl
      · exact .some hleft
      · rw [strsep, hx]
        exact .some hright

end AdvancedOS
