import AdvancedOS.Stdio.Code

/-!
# One text for `sprintf` and `printf`

* `formatLoop_map`: **where one output follows another, so do the loops**;
* `printed`: the characters that `printf` prints, one after the other;
* `printfTo_eq`, `printf_eq`, `sprintf_eq`: `printf` prints these characters, and `sprintf` stores
  those of them that are not zero.
-/

namespace AdvancedOS.Stdio

variable {σ τ : Type} {format : CStr} {args : ℕ → Arg}

/-- `f` follows `out` through `out'`. -/
structure Follows (out : Output σ) (out' : Output τ) (f : σ → τ) : Prop where
  char : ∀ c s, f (out.char c s) = out'.char c (f s)
  str : ∀ x s, f (out.str x s) = out'.str x (f s)

variable {out : Output σ} {out' : Output τ} {f : σ → τ}

theorem convert_map (h : Follows out out' f) (c : Byte) (k : ℕ) (s : σ) :
    convert out' args c k (f s) = (convert out args c k s).map (Prod.map id f) := by
  unfold convert
  split_ifs
  · cases itoa (args k).word 10 with
    | error e => rfl
    | ok x => exact congrArg (fun y => Except.ok (k + 1, y)) (h.str x s).symm
  · cases itoa (args k).word 16 with
    | error e => rfl
    | ok x => exact congrArg (fun y => Except.ok (k + 1, y)) (h.str x s).symm
  · exact congrArg (fun y => Except.ok (k + 1, y)) (h.char _ s).symm
  · exact congrArg (fun y => Except.ok (k + 1, y)) (h.str _ s).symm
  · exact congrArg (fun y => Except.ok (k, y)) (h.char _ s).symm
  · rfl

/-- **Where one output follows another, so do the loops.** -/
theorem formatLoop_map (h : Follows out out' f) (n i k : ℕ) (s : σ) :
    formatLoop out' format args n i k (f s) = (formatLoop out format args n i k s).map f := by
  induction n generalizing i k s with
  | zero => rfl
  | succ n ih =>
    simp only [formatLoop, bind, Except.bind, pure, Except.pure]
    cases charAt format i with
    | error e => rfl
    | ok c =>
      simp only
      split_ifs
      · rfl
      · cases digitLength format i with
        | error e => rfl
        | ok len =>
          simp only
          cases charAt format (i + len + 1) with
          | error e => rfl
          | ok c₂ =>
            simp only [convert_map h]
            cases convert out args c₂ k s with
            | error e => rfl
            | ok x => exact ih _ _ _
      · rw [← h.char]
        exact ih _ _ _
      · rw [← h.char]
        exact ih _ _ _

/-! ## The characters that are printed -/

/-- The characters that `printf` prints. -/
def printed (format : CStr) (args : ℕ → Arg) : Except StdFault (List Byte) :=
  printfTo (fun x l => l ++ [x]) format args []

theorem foldl_append_singleton (l d : List Byte) : d.foldl (fun t c => t ++ [c]) l = l ++ d := by
  induction d generalizing l with
  | nil => exact (List.append_nil l).symm
  | cons c d ih => rw [List.foldl_cons, ih, List.append_assoc, List.singleton_append]

theorem follows_printing (putc : Byte → σ → σ) (t : σ) :
    Follows (printing fun x l => l ++ [x]) (printing putc)
      fun l => l.foldl (fun t c => putc c t) t where
  char c l := by
    simp only [printing, List.foldl_append, List.foldl_cons, List.foldl_nil]
  str x l := by
    simp only [printing, foldl_append_singleton, List.foldl_append]

/-- **`printf` prints the characters one after the other.** -/
theorem printfTo_eq (putc : Byte → σ → σ) (t : σ) : printfTo putc format args t =
    (printed format args).map fun l => l.foldl (fun t c => putc c t) t :=
  formatLoop_map (follows_printing putc t) _ _ _ []

theorem printf_eq (r : Routing) (c : Option Console) : printf r format args c =
    (printed format args).map fun l => l.foldl (fun c x => c.bind (printChar r x)) c :=
  printfTo_eq _ c

/-- A string without zeros. -/
def withoutNul (l : List Byte) : CStr where
  toList := l.filter (· ≠ 0)
  noNul h := by simp at h

theorem follows_toBuffer : Follows (printing fun x l => l ++ [x]) toBuffer withoutNul where
  char c l := by
    have hc : [c].filter (· ≠ 0) = [c].takeWhile (· ≠ 0) := by
      by_cases hc : c = 0
      · simp [hc]
      · rw [List.filter_cons_of_pos (by simpa using hc), List.takeWhile_cons_of_pos (by simpa using hc)]
        rfl
    ext1
    simp only [printing, toBuffer, withoutNul, strcat, CStr.ofList, List.filter_append, hc]
  str x l := by
    have hx : x.toList.filter (· ≠ 0) = x.toList := by
      refine List.filter_eq_self.mpr fun b hb => ?_
      simpa using fun h : b = 0 => x.noNul (h ▸ hb)
    ext1
    simp only [printing, foldl_append_singleton, toBuffer, withoutNul, strcat, List.filter_append]
    rw [hx]

/-- **`sprintf` stores these characters, without zeros.** -/
theorem sprintf_eq : sprintf format args = (printed format args).map withoutNul :=
  formatLoop_map follows_toBuffer _ _ _ []

end AdvancedOS.Stdio
