import AdvancedOS.Stdio.Bounds
import AdvancedOS.Terminal.Cursor

/-!
# `printf` shows what `sprintf` builds

* `Takes`: which conversion of a format takes which argument;
* `printed_of_finished`: **a format that is finished is printed without zeros, unless a `%c` takes
  one**;
* `printfTo_eq_sprintf`: then `printf` does to any output what printing the string of `sprintf` does;
* `printf_eq_print`: **`printf` leaves the console as `print` does with the string of `sprintf`.**
-/

namespace AdvancedOS.Stdio

variable {σ : Type} {format : CStr} {args : ℕ → Arg} {p q l : List Byte} {c d : Byte} {k n : ℕ}

/-! ## Arguments -/

/-- The number of arguments that the conversion `c` takes. -/
def taken (c : Byte) : ℕ :=
  if c = 0x64 ∨ c = 0x69 ∨ c = 0x78 ∨ c = 0x58 ∨ c = 0x63 ∨ c = 0x73 then 1 else 0

/-- `Takes k c l`: the argument `k` is taken by a conversion `c` of the format `l`. -/
inductive Takes : ℕ → Byte → List Byte → Prop
  | here {c : Byte} {l l' : List Byte} :
    l.drop (widthOf l) = c :: l' → taken c = 1 → Takes 0 c (0x25 :: l)
  | lit {k : ℕ} {c d : Byte} {l : List Byte} : d ≠ 0x25 → Takes k c l → Takes k c (d :: l)
  | conv {k : ℕ} {c d : Byte} {l l' : List Byte} :
    l.drop (widthOf l) = d :: l' → Takes k c l' → Takes (taken d + k) c (0x25 :: l)

theorem convert_text (hc : c = 0x63 → (args k).word.setWidth 8 ≠ (0 : Byte)) (l : List Byte) :
    ∃ d, convert (printing fun x l => l ++ [x]) args c k l = .ok (k + taken c, l ++ d) ∧ 0 ∉ d := by
  have hdigits : ∀ b : ℕ, 1 < b → b ≤ 16 → (CStr.ofList (digitText b (args k).word.toNat)).toList.foldl
      (fun l x => l ++ [x]) l = l ++ digitText b (args k).word.toNat := by
    intro b hb hb'
    rw [foldl_append_singleton, toList_ofList_digitText hb hb']
  rw [convert, itoa_ten, itoa_sixteen]
  by_cases hd : c = 0x64 ∨ c = 0x69
  · have htaken : taken c = 1 := if_pos (hd.imp_right .inl)
    refine ⟨digitText 10 (args k).word.toNat, ?_, zero_notMem_digitText (by decide) (by decide) _⟩
    rw [if_pos hd, htaken, ← hdigits 10 (by decide) (by decide)]
    rfl
  · rw [if_neg hd]
    by_cases hx : c = 0x78 ∨ c = 0x58
    · have htaken : taken c = 1 := if_pos (.inr (.inr (hx.imp_right .inl)))
      refine ⟨digitText 16 (args k).word.toNat, ?_, zero_notMem_digitText (by decide) (by decide) _⟩
      rw [if_pos hx, htaken, ← hdigits 16 (by decide) (by decide)]
      rfl
    · rw [if_neg hx]
      by_cases h₁ : c = 0x63
      · subst h₁
        exact ⟨[(args k).word.setWidth 8], rfl, List.mem_singleton.not.mpr (hc rfl).symm⟩
      · rw [if_neg h₁]
        by_cases h₂ : c = 0x73
        · subst h₂
          refine ⟨(args k).text.toList, ?_, (args k).text.noNul⟩
          rw [← foldl_append_singleton l]
          rfl
        · rw [if_neg h₂]
          have htaken : taken c = 0 := by
            refine if_neg fun h => ?_
            rcases h with h | h | h | h | h | h
            · exact hd (.inl h)
            · exact hd (.inr h)
            · exact hx (.inl h)
            · exact hx (.inr h)
            · exact h₁ h
            · exact h₂ h
          rw [htaken]
          by_cases h₃ : c = 0x25
          · refine ⟨[0x25], if_pos h₃, by decide⟩
          · refine ⟨[], ?_, List.not_mem_nil⟩
            rw [if_neg h₃, List.append_nil]
            rfl

/-! ## The two loops -/

/-- **A format that is finished is printed, without zeros unless a `%c` takes one.** -/
theorem formatLoop_of_finished (hfin : Finished q) (h : format.toList = p ++ q) (hn : q.length < n)
    (hc : ∀ j, Takes j 0x63 q → (args (k + j)).word.setWidth 8 ≠ (0 : Byte)) (hl : 0 ∉ l) :
    ∃ l', formatLoop (printing fun x l => l ++ [x]) format args n p.length k l = .ok l' ∧ 0 ∉ l' := by
  obtain ⟨n, rfl⟩ := Nat.exists_eq_succ_of_ne_zero (Nat.ne_zero_of_lt hn)
  induction hfin generalizing p n k l with
  | nil =>
    rw [List.append_nil] at h
    rw [← h]
    exact ⟨l, formatLoop_end n k l, hl⟩
  | @lit c q hne hfin ih =>
    have hn' : q.length < n := Nat.lt_of_succ_lt_succ hn
    obtain ⟨n, rfl⟩ := Nat.exists_eq_succ_of_ne_zero (Nat.ne_zero_of_lt hn')
    have hchar : (if c = 0x0D then 0x0A else c) ≠ (0 : Byte) := by
      split_ifs
      · decide
      · exact ne_zero_of_toList h
    rw [formatLoop_lit h hne]
    apply ih _ (fun j hj => hc j (.lit hne hj)) _ _ hn'
    · rw [h, List.append_assoc, List.singleton_append]
    · exact List.not_mem_append hl (List.mem_singleton.not.mpr hchar.symm)
  | @conv c q q' hd hfin ih =>
    have hn' : q.length < n := Nat.lt_of_succ_lt_succ hn
    obtain ⟨n, rfl⟩ := Nat.exists_eq_succ_of_ne_zero (Nat.ne_zero_of_lt hn')
    have hq : q = q.take (widthOf q) ++ c :: q' := by rw [← hd, List.take_append_drop]
    have hw : widthOf q = (q.take (widthOf q)).length := by
      rw [List.length_take, Nat.min_eq_left (widthOf_le q)]
    have hzero : c = 0x63 → (args k).word.setWidth 8 ≠ (0 : Byte) := by
      rintro rfl
      exact hc 0 (.here hd rfl)
    have hrest : ∀ j, Takes j 0x63 q' → (args (k + taken c + j)).word.setWidth 8 ≠ (0 : Byte) := by
      intro j hj
      rw [Nat.add_assoc]
      exact hc _ (.conv hd hj)
    generalize q.take (widthOf q) = w at hq hw
    obtain ⟨d, hconv, hd0⟩ := convert_text hzero l
    subst hq
    rw [formatLoop_conv h hw, hconv]
    apply ih _ hrest _ _
    · rw [List.length_append, List.length_cons] at hn'
      omega
    · rw [h, List.append_assoc, List.cons_append, List.append_assoc, List.singleton_append]
    · exact List.not_mem_append hl hd0

theorem printed_of_finished (hfin : Finished format.toList)
    (hc : ∀ k, Takes k 0x63 format.toList → (args k).word.setWidth 8 ≠ (0 : Byte)) :
    ∃ l, printed format args = .ok l ∧ 0 ∉ l := by
  apply formatLoop_of_finished (p := []) hfin rfl
  · exact Nat.lt_add_of_pos_right Nat.two_pos
  · intro j hj
    rw [Nat.zero_add]
    exact hc j hj
  · exact List.not_mem_nil

/-- **To any output, `printf` does what printing the string of `sprintf` does.** -/
theorem printfTo_eq_sprintf (hfin : Finished format.toList)
    (hc : ∀ k, Takes k 0x63 format.toList → (args k).word.setWidth 8 ≠ (0 : Byte)) :
    ∃ s, sprintf format args = .ok s ∧ ∀ (putc : Byte → σ → σ) (t : σ),
      printfTo putc format args t = .ok (s.toList.foldl (fun t x => putc x t) t) := by
  obtain ⟨l, hl, h0⟩ := printed_of_finished hfin hc
  have hfilter : (withoutNul l).toList = l := by
    refine List.filter_eq_self.mpr fun b hb => ?_
    simpa using fun hb0 : b = 0 => h0 (hb0 ▸ hb)
  refine ⟨withoutNul l, ?_, fun putc t => ?_⟩
  · rw [sprintf_eq, hl]
    rfl
  · rw [printfTo_eq, hl, hfilter]
    rfl

/-- **`printf` leaves the console as `print` does with the string of `sprintf`.** -/
theorem printf_eq_print (r : Routing) (format : CStr) (args : ℕ → Arg) (c : Console)
    (hfin : Finished format.toList)
    (hc : ∀ k, Takes k 0x63 format.toList → (args k).word.setWidth 8 ≠ (0 : Byte)) :
    ∃ s, sprintf format args = .ok s ∧ printf r format args (some c) = .ok (print r s c) := by
  obtain ⟨s, hs, hprint⟩ := printfTo_eq_sprintf hfin hc
  refine ⟨s, hs, ?_⟩
  rw [printf, hprint, foldl_bind]
  rfl

theorem finished_mixed : Finished (CStr.ofChars "a%5d%c%%\r".toList).toList :=
  .lit (by decide) (.conv rfl (.conv rfl (.conv rfl (.lit (by decide) .nil))))

theorem printf_eq_print_mixed :
    ∃ s, sprintf (.ofChars "a%5d%c%%\r".toList) (fun _ => ⟨0x41, .ofList []⟩) = .ok s ∧
      printf ⟨0, 1⟩ (.ofChars "a%5d%c%%\r".toList) (fun _ => ⟨0x41, .ofList []⟩) (some blankConsole) =
        .ok (print ⟨0, 1⟩ s blankConsole) :=
  printf_eq_print ⟨0, 1⟩ _ _ blankConsole finished_mixed fun _ _ => by decide

end AdvancedOS.Stdio
