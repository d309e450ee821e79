import AdvancedOS.Fat.Transfer
import AdvancedOS.Str.Split
import Mathlib.Data.List.Induction

/-!
# The functions of `string.h` in memory

`strlen`, `strcmp`, `strcpy`, `strcat`, `reverse` and `tolower` as in the source: their
loops go over the bytes of the memory and end, if they do, at a terminating zero. A loop gets `n`
rounds.

* `strlenAt`, `strcmpAt`, `strcpyAt`, …: the functions;
* `strcmp_order`: **`strcmp` compares as the lexicographic order of the bytes does**;
* `strcpy_copies`, `strcat_appends`: **when they return, and what they leave then**: they run on for
  ever exactly if they store to the source behind its first character;
* `reverse_reverses`, `tolower_refines`: **a string is changed in its place, unless it is longer than
  an `int` can say**.
-/

namespace AdvancedOS

open Function (update)

variable {m m' : Mem} {a b x dst src s : Word} {l r u : List Byte} {c : Byte} {i k n : ℕ}

/-! ## The functions -/

/-- The loop of `strlen`: `len` when it ends. -/
def strlenLoop (m : Mem) (str : Word) : ℕ → Word → Option Word
  | 0, _ => none
  | n + 1, len => if m (str + len) ≠ 0 then strlenLoop m str n (len + 1) else some (len + 1)

/-- `strlen`. -/
def strlenAt (n : ℕ) (m : Mem) (str : Word) : Option Word :=
  (strlenLoop m str n 0).map fun len => len - 1

/-- `strcmp`. -/
def strcmpAt (m : Mem) : ℕ → Word → Word → Option ℤ
  | 0, _, _ => none
  | n + 1, s1, s2 =>
    if m s1 ≠ 0 ∧ m s1 = m s2 then strcmpAt m n (s1 + 1) (s2 + 1)
    else some ((m s1).toNat - (m s2).toNat)

/-- `strcpy`: the character that is stored is tested. -/
def strcpyAt : ℕ → Word → Word → Mem → Option Mem
  | 0, _, _, _ => none
  | n + 1, strDest, strSrc, m =>
    if m strSrc ≠ 0 then strcpyAt n (strDest + 1) (strSrc + 1) (update m strDest (m strSrc))
    else some (update m strDest (m strSrc))

/-- The loop of `strcat`, and the zero behind it. -/
def strcatLoop : ℕ → Word → Word → Mem → Option Mem
  | 0, _, _, _ => none
  | n + 1, ptr, src, m =>
    if m src ≠ 0 then strcatLoop n (ptr + 1) (src + 1) (update m ptr (m src))
    else some (update m ptr 0)

/-- `strcat`. -/
def strcatAt (n : ℕ) (dst src : Word) (m : Mem) : Option Mem := do
  let len ← strlenAt n m dst
  strcatLoop n (dst + len) src m

/-- The loop of `reverse`, with the `int`s `i` and `j`. -/
def reverseLoop (s : Word) : ℕ → ℤ → ℤ → Mem → Option Mem
  | 0, _, _, _ => none
  | n + 1, i, j, m =>
    if i < j then
      let c := m (s + BitVec.ofInt 32 i)
      let m := update m (s + BitVec.ofInt 32 i) (m (s + BitVec.ofInt 32 j))
      reverseLoop s n (i + 1) (j - 1) (update m (s + BitVec.ofInt 32 j) c)
    else some m

/-- `reverse`: `j` is an `int`. -/
def reverseAt (n : ℕ) (s : Word) (m : Mem) : Option Mem := do
  let len ← strlenAt n m s
  reverseLoop s n 0 (len - 1).toInt m

/-- The loop of `tolower`, for a function `f` that gives the new character. -/
def changeLoop (f : Byte → Byte) (str : Word) (len : ℤ) : ℕ → ℤ → Mem → Option Mem
  | 0, _, _ => none
  | n + 1, i, m =>
    if i < len then
      changeLoop f str len n (i + 1)
        (update m (str + BitVec.ofInt 32 i) (f (m (str + BitVec.ofInt 32 i))))
    else some m

/-- `len` is an `int`. -/
def changeAt (f : Byte → Byte) (n : ℕ) (str : Word) (m : Mem) : Option Mem := do
  let len ← strlenAt n m str
  changeLoop f str len.toInt n 0 m

/-- `tolower`. -/
def tolowerAt : ℕ → Word → Mem → Option Mem := changeAt lowerByte

/-! ## Storing -/

theorem store_nil (m : Mem) (a : Word) : m.store a [] = m := by
  funext x
  exact store_of_notMem (Nat.not_lt_zero _)

theorem store_cons (hl : l.length < 2 ^ 32) :
    m.store a (c :: l) = Mem.store (update m a c) (a + 1) l := by
  funext x
  unfold Mem.store
  by_cases hx : x = a
  · subst hx
    have hoff : (x - (x + 1)).toNat = 2 ^ 32 - 1 := by bv_omega
    have hend : l[2 ^ 32 - 1]? = none := List.getElem?_eq_none (by omega)
    rw [BitVec.sub_self, hoff, Function.update_self, hend]
    rfl
  · have hoff : (x - a).toNat = (x - (a + 1)).toNat + 1 := by bv_omega
    rw [hoff, List.getElem?_cons_succ, Function.update_of_ne hx]

theorem stringAt_store (h0 : 0 ∉ l) (hl : l.length < 2 ^ 32) :
    StringAt (m.store a (l ++ [0])) a l := by
  have hlen : (l ++ [0]).length ≤ 2 ^ 32 := by
    rw [List.length_append, List.length_singleton]
    exact hl
  exact stringAt_iff.mpr ⟨h0, fun k hk => store_of_lt hlen hk⟩

/-- The string `l` is at `a`, and nothing else has changed. -/
structure Stored (a : Word) (l : List Byte) (m m' : Mem) : Prop where
  string : StringAt m' a l
  frame : ∀ x ∉ span a (l.length + 1), m' x = m x

theorem stored_store (h0 : 0 ∉ l) (hl : l.length < 2 ^ 32) :
    Stored a l m (m.store a (l ++ [0])) := by
  refine ⟨stringAt_store h0 hl, fun x hx => store_of_notMem ?_⟩
  rwa [List.length_append, List.length_singleton]

/-- The string `ab` in a memory. -/
def abAt (a : Word) : Mem := Mem.store (fun _ => 0) a ([0x61, 0x62] ++ [0])

theorem stringAt_abAt (a : Word) : StringAt (abAt a) a [0x61, 0x62] :=
  stringAt_store (by decide) (by decide)

/-! ## Reading -/

theorem strlenLoop_eq {len : Word} (h : StringAt m (a + len) l) (hn : l.length < n) :
    strlenLoop m a n len = some (len + BitVec.ofNat 32 (l.length + 1)) := by
  induction l generalizing len n with
  | nil =>
    obtain ⟨n, rfl⟩ := Nat.exists_eq_succ_of_ne_zero (Nat.ne_zero_of_lt hn)
    have h0 : m (a + len) = 0 := h
    rw [strlenLoop, if_neg (not_not.mpr h0)]
    rfl
  | cons c l ih =>
    obtain ⟨n, rfl⟩ := Nat.exists_eq_succ_of_ne_zero (Nat.ne_zero_of_lt hn)
    obtain ⟨hc, h0, h⟩ := h
    subst hc
    rw [BitVec.add_assoc] at h
    rw [strlenLoop, if_pos h0, ih h (Nat.lt_of_succ_lt_succ hn), succ_add_ofNat, List.length_cons]

theorem strlenLoop_none {len : Word} (h : StringAt m (a + len) l) (hn : n ≤ l.length) :
    strlenLoop m a n len = none := by
  induction n generalizing l len with
  | zero => rfl
  | succ n ih =>
    cases l with
    | nil => exact absurd hn (Nat.not_succ_le_zero n)
    | cons c l =>
      obtain ⟨rfl, h0, h⟩ := h
      rw [BitVec.add_assoc] at h
      rw [strlenLoop, if_pos h0, ih h (Nat.le_of_succ_le_succ hn)]

theorem strlenAt_eq (h : StringAt m a l) (hn : l.length < n) :
    strlenAt n m a = some (BitVec.ofNat 32 l.length) := by
  have hzero : a + 0 = a := BitVec.add_zero a
  rw [← hzero] at h
  have hstart : (0 : Word) + BitVec.ofNat 32 (l.length + 1) = BitVec.ofNat 32 (l.length + 1) :=
    BitVec.zero_add _
  rw [strlenAt, strlenLoop_eq h hn, Option.map_some, hstart, BitVec.ofNat_add]
  congr 1
  exact BitVec.add_sub_cancel _ _

theorem strlenLoop_string {len z : Word} (h : strlenLoop m a n len = some z) :
    ∃ l, StringAt m (a + len) l ∧ z = len + BitVec.ofNat 32 (l.length + 1) := by
  induction n generalizing len with
  | zero => cases h
  | succ n ih =>
    rw [strlenLoop] at h
    split_ifs at h with h0
    · obtain ⟨l, hl, rfl⟩ := ih h
      rw [← BitVec.add_assoc] at hl
      refine ⟨m (a + len) :: l, ⟨rfl, h0, hl⟩, ?_⟩
      rw [succ_add_ofNat, List.length_cons]
    · cases h
      exact ⟨[], not_not.mp h0, rfl⟩

theorem strlenAt_string {len : Word} (h : strlenAt n m a = some len) :
    ∃ l, StringAt m a l ∧ len = BitVec.ofNat 32 l.length := by
  obtain ⟨z, hz, rfl⟩ := Option.map_eq_some_iff.mp h
  obtain ⟨l, hl, rfl⟩ := strlenLoop_string hz
  have hzero : a + 0 = a := BitVec.add_zero a
  rw [hzero] at hl
  refine ⟨l, hl, ?_⟩
  rw [BitVec.ofNat_add]
  exact (congrArg (· - 1) (BitVec.zero_add _)).trans (BitVec.add_sub_cancel _ _)

theorem toNat_pos (h : c ≠ 0) : 0 < c.toNat :=
  Nat.pos_of_ne_zero fun h0 => h (BitVec.eq_of_toNat_eq h0)

/-- **`strcmp` compares as the lexicographic order does.** -/
theorem strcmp_order (ha : StringAt m a l) (hb : StringAt m b r) (hn : l.length < n) :
    ∃ x, strcmpAt m n a b = some x ∧ (x = 0 ↔ l = r) ∧ (x < 0 ↔ l < r) := by
  induction l generalizing a b r n with
  | nil =>
    obtain ⟨n, rfl⟩ := Nat.exists_eq_succ_of_ne_zero (Nat.ne_zero_of_lt hn)
    have h0 : m a = 0 := ha
    refine ⟨_, if_neg fun h => h.1 h0, ?_⟩
    cases r with
    | nil =>
      have hb : m b = 0 := hb
      simp [h0, hb]
    | cons d r =>
      obtain ⟨rfl, hd, -⟩ := hb
      have hpos : 0 < (m b).toNat := toNat_pos hd
      simp [h0]
      omega
  | cons c l ih =>
    obtain ⟨n, rfl⟩ := Nat.exists_eq_succ_of_ne_zero (Nat.ne_zero_of_lt hn)
    obtain ⟨rfl, hc, ha⟩ := ha
    cases r with
    | nil =>
      have hb : m b = 0 := hb
      have hpos : 0 < (m a).toNat := toNat_pos hc
      refine ⟨_, if_neg fun h => hc (h.2.trans hb), ?_⟩
      simp [hb]
      omega
    | cons d r =>
      obtain ⟨rfl, hd, hb⟩ := hb
      by_cases heq : m a = m b
      · obtain ⟨x, hx, he, hlt⟩ := ih ha hb (Nat.lt_of_succ_lt_succ hn)
        refine ⟨x, (if_pos ⟨hc, heq⟩).trans hx, ?_, ?_⟩
        · rw [he, heq, List.cons.injEq, and_iff_right rfl]
        · rw [hlt, heq, List.cons_lt_cons_iff]
          simp
      · have hne : (m a).toNat ≠ (m b).toNat := fun h => heq (BitVec.eq_of_toNat_eq h)
        refine ⟨_, if_neg fun h => heq h.2, ?_, ?_⟩
        · rw [List.cons.injEq]
          simp only [heq, false_and, iff_false]
          omega
        · rw [List.cons_lt_cons_iff]
          simp only [heq, false_and, or_false, BitVec.lt_def]
          omega

/-- `ab` is less than `b`. -/
theorem strcmp_order_ab : ∃ x, strcmpAt (abAt 0x1000) 3 0x1000 0x1001 = some x ∧ x < 0 := by
  have hb : StringAt (abAt 0x1000) 0x1001 [0x62] := (stringAt_abAt 0x1000).2.2
  obtain ⟨x, hx, -, hlt⟩ := strcmp_order (n := 3) (stringAt_abAt 0x1000) hb (by decide)
  exact ⟨x, hx, hlt.mpr (by decide)⟩

/-! ## Copying -/

/-- **The copy that is left, if nothing is stored to the source behind its first character.** -/
theorem strcpyAt_eq (h : StringAt m src l) (hd : dst ∉ span (src + 1) l.length) (hn : l.length < n) :
    strcpyAt n dst src m = some (m.store dst (l ++ [0])) := by
  have hlt := h.length_lt
  induction l generalizing dst src m n with
  | nil =>
    obtain ⟨n, rfl⟩ := Nat.exists_eq_succ_of_ne_zero (Nat.ne_zero_of_lt hn)
    have h0 : m src = 0 := h
    rw [strcpyAt, if_neg (not_not.mpr h0), h0, List.nil_append, store_cons hlt, store_nil]
  | cons c l ih =>
    obtain ⟨n, rfl⟩ := Nat.exists_eq_succ_of_ne_zero (Nat.ne_zero_of_lt hn)
    obtain ⟨rfl, h0, h⟩ := h
    rw [List.length_cons] at hlt
    have hsrc : StringAt (update m dst (m src)) (src + 1) l := by
      refine h.congr fun x hx => Function.update_of_ne ?_ _ _
      rintro rfl
      exact hd hx
    have hd' : dst + 1 ∉ span (src + 1 + 1) l.length := by
      have hoff : dst + 1 - (src + 1 + 1) = dst - (src + 1) := by bv_omega
      rw [mem_span, List.length_cons] at hd
      rw [mem_span, hoff]
      omega
    have hlen : (l ++ [0]).length < 2 ^ 32 := by
      rw [List.length_append, List.length_singleton]
      exact hlt
    rw [strcpyAt, if_pos h0, ih hsrc hd' (Nat.lt_of_succ_lt_succ hn) (Nat.lt_of_succ_lt hlt),
      List.cons_append, store_cons hlen]

/-- Where no byte up to the destination is zero, the zero is never reached. -/
theorem strcpyAt_none (hsrc : ∀ i ≤ k, m (src + BitVec.ofNat 32 i) ≠ 0) (hk : k + 1 < 2 ^ 32)
    (hd : dst = src + BitVec.ofNat 32 (k + 1)) (n : ℕ) : strcpyAt n dst src m = none := by
  induction n generalizing dst src m with
  | zero => rfl
  | succ n ih =>
    have hzero : src + BitVec.ofNat 32 0 = src := BitVec.add_zero src
    have h0 : m src ≠ 0 := hzero ▸ hsrc 0 (Nat.zero_le k)
    rw [strcpyAt, if_pos h0]
    refine ih (fun i hi => ?_) ?_
    · rw [succ_add_ofNat, hd]
      by_cases he : i = k
      · rw [he, Function.update_self]
        exact h0
      · rw [Function.update_of_ne fun hx => he (Nat.succ_inj.mp (add_ofNat_inj (by omega) hk hx))]
        exact hsrc (i + 1) (by omega)
    · rw [hd, succ_add_ofNat, BitVec.add_assoc]
      congr 1
      rw [BitVec.ofNat_add (k + 1) 1]
      rfl

theorem strcpyAt_never (h : StringAt m src l) (hd : dst ∈ span (src + 1) l.length) (n : ℕ) :
    strcpyAt n dst src m = none := by
  have hlt := h.length_lt
  obtain ⟨hnul, hall⟩ := stringAt_iff.mp h
  obtain ⟨k, hk⟩ : ∃ k, (dst - (src + 1)).toNat = k := ⟨_, rfl⟩
  rw [mem_span, hk] at hd
  have hdst : dst = src + BitVec.ofNat 32 (k + 1) := by
    rw [← succ_add_ofNat]
    exact (toNat_sub_eq_iff (by omega)).mp hk
  refine strcpyAt_none (fun i hi h0 => hnul ?_) (by omega) hdst n
  have hi : i < l.length := by omega
  have hchar := hall i (by rw [List.length_append]; omega)
  rw [List.getElem_append_left hi, h0] at hchar
  exact hchar ▸ List.getElem_mem hi

/-- **`strcpy` runs on for ever if the destination lies in the source behind its first character,
and otherwise it returns and has copied the string.** -/
theorem strcpy_copies (h : StringAt m src l) :
    (dst ∈ span (src + 1) l.length → ∀ n, strcpyAt n dst src m = none) ∧
    (dst ∉ span (src + 1) l.length →
      ∃ m', Stored dst l m m' ∧ ∀ n, l.length < n → strcpyAt n dst src m = some m') := by
  obtain ⟨hnul, -⟩ := stringAt_iff.mp h
  refine ⟨strcpyAt_never h, fun hd => ?_⟩
  exact ⟨_, stored_store hnul h.length_lt, fun n hn => strcpyAt_eq h hd hn⟩

/-- The copy to the next character runs on for ever, and the copy to another page returns. -/
theorem strcpy_copies_ab : (∀ n, strcpyAt n 0x1001 0x1000 (abAt 0x1000) = none) ∧
    ∃ m', Stored 0x2000 [0x61, 0x62] (abAt 0x1000) m' ∧
      strcpyAt 3 0x2000 0x1000 (abAt 0x1000) = some m' := by
  have hout : (0x2000 : Word) ∉ span (0x1000 + 1 : Word) 2 := by
    rw [mem_span]
    decide
  have hnever : (0x1001 : Word) ∈ span (0x1000 + 1 : Word) 2 →
      ∀ n, strcpyAt n 0x1001 0x1000 (abAt 0x1000) = none := (strcpy_copies (stringAt_abAt 0x1000)).1
  obtain ⟨m', hm, hn⟩ := (strcpy_copies (stringAt_abAt 0x1000)).2 hout
  refine ⟨hnever ?_, m', hm, hn 3 (by decide)⟩
  rw [mem_span]
  decide

theorem strcatLoop_eq (n : ℕ) (dst src : Word) (m : Mem) :
    strcatLoop n dst src m = strcpyAt n dst src m := by
  induction n generalizing dst src m with
  | zero => rfl
  | succ n ih =>
    rw [strcatLoop, strcpyAt]
    split_ifs with h0
    · exact ih ..
    · rw [not_not.mp h0]

theorem length_add_lt (hl : StringAt m dst l) (hr : StringAt m src r)
    (hd : dst + BitVec.ofNat 32 l.length ∉ span (src + 1) r.length) :
    l.length + r.length < 2 ^ 32 := by
  obtain ⟨hnul, hall⟩ := stringAt_iff.mp hl
  obtain ⟨-, hsrc⟩ := stringAt_iff.mp hr
  have hend : ∀ {u : List Byte}, (u ++ [0]).length = u.length + 1 := by
    intro u
    rw [List.length_append, List.length_singleton]
  have hptr : m (dst + BitVec.ofNat 32 l.length) = 0 := by
    rw [hall l.length (by rw [hend]; omega), List.getElem_append_right le_rfl]
    simp
  by_contra hlong
  have hlt := hl.length_lt
  -- the first character of the source is not where the zero is
  have hne : dst + BitVec.ofNat 32 l.length ≠ src := by
    rintro rfl
    cases r with
    | nil => exact hlong hlt
    | cons c r => exact hr.2.1 (hr.1.symm.trans hptr)
  obtain ⟨k, hk⟩ : ∃ k, (dst + BitVec.ofNat 32 l.length - src).toNat = k := ⟨_, rfl⟩
  have hklt : k < 2 ^ 32 := hk ▸ BitVec.isLt _
  have hoff : (dst + BitVec.ofNat 32 l.length - (src + 1)).toNat = k - 1 := by bv_omega
  have hpos : k ≠ 0 := by
    rintro rfl
    exact hne (by bv_omega)
  rw [mem_span, hoff] at hd
  have hsame : dst + BitVec.ofNat 32 l.length = src + BitVec.ofNat 32 k :=
    (toNat_sub_eq_iff hklt).mp hk
  -- so the zero of the source would be a character of the other string
  have hzero : src + BitVec.ofNat 32 r.length = dst + BitVec.ofNat 32 (l.length + r.length - k) := by
    have hsum : src + BitVec.ofNat 32 r.length + BitVec.ofNat 32 k =
        dst + BitVec.ofNat 32 (l.length + r.length - k) + BitVec.ofNat 32 k := by
      rw [add_ofNat_add, add_ofNat_add, Nat.sub_add_cancel (by omega), Nat.add_comm r.length,
        ← add_ofNat_add, ← hsame, add_ofNat_add]
    exact (BitVec.add_left_inj _).mp hsum
  have hlast := hsrc r.length (by rw [hend]; omega)
  have hchar := hall (l.length + r.length - k) (by rw [hend]; omega)
  rw [hzero, List.getElem_append_right le_rfl] at hlast
  rw [hlast, List.getElem_append_left (by omega)] at hchar
  simp only [Nat.sub_self, List.getElem_cons_zero] at hchar
  exact hnul (hchar ▸ List.getElem_mem _)

theorem stringAt_store_end (hl : StringAt m dst l) (hr : 0 ∉ r) (hlen : l.length + r.length < 2 ^ 32) :
    StringAt (m.store (dst + BitVec.ofNat 32 l.length) (r ++ [0])) dst (l ++ r) := by
  obtain ⟨hnul, hall⟩ := stringAt_iff.mp hl
  have hlen' : (r ++ [0]).length = r.length + 1 := by
    rw [List.length_append, List.length_singleton]
  refine stringAt_iff.mpr ⟨fun h => (List.mem_append.mp h).elim hnul hr, fun k hk => ?_⟩
  rw [List.length_append, List.length_append, List.length_singleton] at hk
  simp only [List.append_assoc]
  by_cases hkl : k < l.length
  · have hout : dst + BitVec.ofNat 32 k ∉ span (dst + BitVec.ofNat 32 l.length) (r ++ [0]).length := by
      rw [mem_span_add_iff (by omega), (toNat_sub_eq_iff (n := k) (by omega)).mpr rfl]
      omega
    rw [store_of_notMem hout, hall k (by rw [List.length_append]; omega),
      List.getElem_append_left hkl, List.getElem_append_left hkl]
  · obtain ⟨j, rfl⟩ := Nat.exists_eq_add_of_le (Nat.le_of_not_lt hkl)
    rw [List.getElem_append_right (Nat.le_add_right _ _), ← add_ofNat_add,
      store_of_lt (by omega) (by omega)]
    simp only [Nat.add_sub_cancel_left]

/-- **`strcat` runs on for ever if the end of the destination lies in the source behind its first
character, and otherwise it returns and has appended the source.** -/
theorem strcat_appends (hl : StringAt m dst l) (hr : StringAt m src r) :
    (dst + BitVec.ofNat 32 l.length ∈ span (src + 1) r.length → ∀ n, strcatAt n dst src m = none) ∧
    (dst + BitVec.ofNat 32 l.length ∉ span (src + 1) r.length → ∃ m', StringAt m' dst (l ++ r) ∧
      (∀ x ∉ span (dst + BitVec.ofNat 32 l.length) (r.length + 1), m' x = m x) ∧
      ∀ n, l.length < n → r.length < n → strcatAt n dst src m = some m') := by
  have hcat : ∀ n, l.length < n →
      strcatAt n dst src m = strcpyAt n (dst + BitVec.ofNat 32 l.length) src m := by
    intro n hn
    rw [strcatAt, strlenAt_eq hl hn]
    exact strcatLoop_eq ..
  constructor
  · intro hd n
    by_cases hn : l.length < n
    · exact (hcat n hn).trans (strcpyAt_never hr hd n)
    · have hzero : dst + 0 = dst := BitVec.add_zero dst
      rw [strcatAt, strlenAt, strlenLoop_none (hzero.symm ▸ hl) (Nat.le_of_not_lt hn)]
      rfl
  · intro hd
    have hlen := length_add_lt hl hr hd
    obtain ⟨hnul, -⟩ := stringAt_iff.mp hr
    refine ⟨_, stringAt_store_end hl hnul hlen, fun x hx => store_of_notMem ?_, fun n hn hn' => ?_⟩
    · rwa [List.length_append, List.length_singleton]
    · rw [hcat n hn]
      exact strcpyAt_eq hr hd hn'

/-- A string is not appended to itself, but to another one. -/
theorem strcat_appends_ab : (∀ n, strcatAt n 0x1000 0x1000 (abAt 0x1000) = none) ∧
    ∃ m', StringAt m' 0x1000 [0x61, 0x62, 0x61, 0x62] ∧
      strcatAt 3 0x1000 0x2000 ((abAt 0x2000).store 0x1000 ([0x61, 0x62] ++ [0])) = some m' := by
  have hdst : StringAt ((abAt 0x2000).store 0x1000 ([0x61, 0x62] ++ [0])) 0x1000 [0x61, 0x62] :=
    stringAt_store (by decide) (by decide)
  have hsrc : StringAt ((abAt 0x2000).store 0x1000 ([0x61, 0x62] ++ [0])) 0x2000 [0x61, 0x62] := by
    refine (stringAt_abAt 0x2000).congr fun x hx => store_of_notMem ?_
    exact fun hx' => span_disjoint (m := 3) (n := 3) (by decide) (by decide) hx' hx
  obtain ⟨hnever, -⟩ := strcat_appends (stringAt_abAt 0x1000) (stringAt_abAt 0x1000)
  obtain ⟨m', hm, -, hn⟩ := (strcat_appends hdst hsrc).2 (by
    rw [mem_span]
    decide)
  refine ⟨hnever ?_, m', hm, hn 3 (by decide) (by decide)⟩
  rw [mem_span]
  decide

/-! ## Changing a string in its place -/

theorem store_self (h : BytesAt m a l) (hl : l.length ≤ 2 ^ 32) : m.store a l = m := by
  funext x
  by_cases hx : x ∈ span a l.length
  · have hx' : (x - a).toNat < l.length := hx
    have hoff : x = a + BitVec.ofNat 32 (x - a).toNat := (toNat_sub_eq_iff (BitVec.isLt _)).mp rfl
    rw [hoff, store_of_lt hl hx', h _ hx']
  · exact store_of_notMem hx

theorem store_concat (hl : l.length < 2 ^ 32) :
    m.store a (l ++ [c]) = Mem.store (update m (a + BitVec.ofNat 32 l.length) c) a l := by
  funext x
  unfold Mem.store
  by_cases hx : x = a + BitVec.ofNat 32 l.length
  · have hoff : (x - a).toNat = l.length := (toNat_sub_eq_iff hl).mpr hx
    rw [hoff, List.getElem?_append_right le_rfl, List.getElem?_eq_none le_rfl, hx,
      Function.update_self]
    simp
  · have hoff : (x - a).toNat ≠ l.length := fun h => hx ((toNat_sub_eq_iff hl).mp h)
    rw [Function.update_of_ne hx]
    by_cases hlt : (x - a).toNat < l.length
    · rw [List.getElem?_append_left hlt]
    · have hout : (l ++ [c])[(x - a).toNat]? = none := by
        rw [List.getElem?_eq_none_iff, List.length_append, List.length_singleton]
        omega
      rw [hout, List.getElem?_eq_none (Nat.le_of_not_lt hlt)]

/-- **The loop of `reverse` on the bytes from `i` to `j`.** -/
theorem reverseLoop_eq (hu : BytesAt m (s + BitVec.ofNat 32 i) u) (hlen : u.length < 2 ^ 32)
    (hn : u.length < n) : reverseLoop s n i (i + u.length - 1) m =
      some (m.store (s + BitVec.ofNat 32 i) u.reverse) := by
  obtain ⟨n, rfl⟩ := Nat.exists_eq_succ_of_ne_zero (Nat.ne_zero_of_lt hn)
  induction u using List.bidirectionalRec generalizing i m n with
  | nil =>
    rw [reverseLoop, if_neg (by simp), List.reverse_nil, store_nil]
  | singleton c =>
    rw [reverseLoop, if_neg (by simp), List.reverse_singleton, store_self hu (by simp)]
  | cons_append c v d ih =>
    have hlenv : (c :: (v ++ [d])).length = v.length + 2 := by simp
    rw [hlenv] at hlen hn
    obtain ⟨n, rfl⟩ := Nat.exists_eq_succ_of_ne_zero (show n ≠ 0 by omega)
    have hj : (i : ℤ) + ((c :: (v ++ [d])).length : ℕ) - 1 = ((i + (v.length + 1) : ℕ) : ℤ) := by
      rw [hlenv]
      push_cast
      omega
    have hlast : m (s + BitVec.ofNat 32 (i + (v.length + 1))) = d := by
      rw [← add_ofNat_add, hu (v.length + 1) (by omega)]
      simp
    have hmid : BytesAt m (s + BitVec.ofNat 32 (i + 1)) v := by
      intro k hk
      have hchar := hu (k + 1) (by omega)
      rw [add_ofNat_add] at hchar
      rw [add_ofNat_add, Nat.add_assoc, Nat.add_comm 1 k, hchar, List.getElem_cons_succ,
        List.getElem_append_left hk]
    have hnext : s + BitVec.ofNat 32 i + 1 = s + BitVec.ofNat 32 (i + 1) := by
      rw [← add_ofNat_add]
      rfl
    have hend : s + BitVec.ofNat 32 (i + 1) + BitVec.ofNat 32 v.length =
        s + BitVec.ofNat 32 (i + (v.length + 1)) := by
      rw [add_ofNat_add]
      congr 2
      omega
    rw [reverseLoop, hj, if_pos (by omega)]
    simp only [BitVec.ofInt_natCast]
    rw [hu.head, hlast]
    have hbefore : s + BitVec.ofNat 32 i ∉ span (s + BitVec.ofNat 32 (i + 1)) v.length := by
      rw [mem_span, ← hnext]
      have hoff : (s + BitVec.ofNat 32 i - (s + BitVec.ofNat 32 i + 1)).toNat = 2 ^ 32 - 1 := by
        bv_omega
      omega
    have hbehind : s + BitVec.ofNat 32 (i + (v.length + 1)) ∉
        span (s + BitVec.ofNat 32 (i + 1)) v.length := by
      rw [mem_span, (toNat_sub_eq_iff (n := v.length) (by omega)).mpr hend.symm]
      exact Nat.lt_irrefl _
    have hv : v.length ≤ 2 ^ 32 := by omega
    have hi : (i : ℤ) + 1 = ((i + 1 : ℕ) : ℤ) := by push_cast; rfl
    have hj' : ((i + (v.length + 1) : ℕ) : ℤ) - 1 = ((i + 1 : ℕ) : ℤ) + v.length - 1 := by
      push_cast
      omega
    have hrev : (c :: (v ++ [d])).reverse = d :: (v.reverse ++ [c]) := by simp
    have hlenr : (v.reverse ++ [c]).length < 2 ^ 32 := by
      rw [List.length_append, List.length_reverse, List.length_singleton]
      omega
    have hlenr' : v.reverse.length < 2 ^ 32 := by
      rw [List.length_reverse]
      omega
    -- the ends are exchanged, and the loop goes on with what lies between them
    rw [hi, hj', ih ((hmid.update hbefore hv d).update hbehind hv c) (by omega) n (by omega), hrev,
      store_cons hlenr, hnext, store_concat hlenr', List.length_reverse, hend]

/-- **The loop of `tolower` on the bytes from `i` on.** -/
theorem changeLoop_eq (f : Byte → Byte) (hu : BytesAt m (s + BitVec.ofNat 32 i) u)
    (hlen : u.length < 2 ^ 32) (hn : u.length < n) :
    changeLoop f s (i + u.length) n i m = some (m.store (s + BitVec.ofNat 32 i) (u.map f)) := by
  induction u generalizing i m n with
  | nil =>
    obtain ⟨n, rfl⟩ := Nat.exists_eq_succ_of_ne_zero (Nat.ne_zero_of_lt hn)
    rw [changeLoop, if_neg (by simp), List.map_nil, store_nil]
  | cons c u ih =>
    obtain ⟨n, rfl⟩ := Nat.exists_eq_succ_of_ne_zero (Nat.ne_zero_of_lt hn)
    rw [List.length_cons] at hlen
    have hnext : s + BitVec.ofNat 32 i + 1 = s + BitVec.ofNat 32 (i + 1) := by
      rw [← add_ofNat_add]
      rfl
    have hbefore : s + BitVec.ofNat 32 i ∉ span (s + BitVec.ofNat 32 (i + 1)) u.length := by
      rw [mem_span, ← hnext]
      have hoff : (s + BitVec.ofNat 32 i - (s + BitVec.ofNat 32 i + 1)).toNat = 2 ^ 32 - 1 := by
        bv_omega
      omega
    have hlast : (i : ℤ) + ((c :: u).length : ℕ) = ((i + 1 : ℕ) : ℤ) + u.length := by
      rw [List.length_cons]
      push_cast
      omega
    have hi : (i : ℤ) + 1 = ((i + 1 : ℕ) : ℤ) := by push_cast; rfl
    have htail : BytesAt m (s + BitVec.ofNat 32 (i + 1)) u := hnext ▸ hu.tail
    have hmap : (u.map f).length < 2 ^ 32 := by
      rw [List.length_map]
      omega
    rw [changeLoop, hlast, if_pos (by omega)]
    simp only [BitVec.ofInt_natCast]
    rw [hu.head, hi, ih (htail.update hbefore (by omega) (f c)) (by omega) (Nat.lt_of_succ_lt_succ hn),
      List.map_cons, store_cons hmap, hnext]

theorem stored_of_stringAt (h : StringAt m s l) (hlen : r.length = l.length) (h0 : 0 ∉ r) :
    Stored s r m (m.store s r) := by
  have hlt := h.length_lt
  obtain ⟨-, hall⟩ := stringAt_iff.mp h
  constructor
  · refine stringAt_iff.mpr ⟨h0, fun k hk => ?_⟩
    rw [List.length_append, List.length_singleton] at hk
    by_cases hkr : k < r.length
    · rw [store_of_lt (by omega) hkr, List.getElem_append_left hkr]
    · obtain rfl : k = r.length := by omega
      have hout : s + BitVec.ofNat 32 r.length ∉ span s r.length := by
        rw [mem_span, (toNat_sub_eq_iff (n := r.length) (by omega)).mpr rfl]
        exact Nat.lt_irrefl _
      rw [store_of_notMem hout, hall r.length (by rw [List.length_append, List.length_singleton]; omega),
        List.getElem_append_right hlen.ge, List.getElem_append_right le_rfl]
      simp only [hlen, Nat.sub_self]
  · exact fun x hx => store_of_notMem fun hx' => hx (span_subset (Nat.le_succ _) hx')

theorem toInt_length_sub_one {k : ℕ} (hk : k < 2 ^ 32) : (BitVec.ofNat 32 k - 1).toInt =
    if k ≤ 2 ^ 31 then (k : ℤ) - 1 else (k : ℤ) - 1 - 2 ^ 32 := by
  have h1 : (BitVec.ofNat 32 k - 1).toNat = if k = 0 then 2 ^ 32 - 1 else k - 1 := by
    split_ifs with h0
    · rw [h0]
      rfl
    · bv_omega
  rw [BitVec.toInt_eq_toNat_cond, h1]
  split_ifs <;> omega

theorem toInt_length {k : ℕ} (hk : k < 2 ^ 32) : (BitVec.ofNat 32 k).toInt =
    if k < 2 ^ 31 then (k : ℤ) else (k : ℤ) - 2 ^ 32 := by
  rw [BitVec.toInt_eq_toNat_cond, BitVec.toNat_ofNat, Nat.mod_eq_of_lt hk]
  split_ifs <;> omega

variable {t : CStr}

/-- **`reverse` reverses the string in its place, if it has no more than `2 ^ 31` characters, and
leaves a longer one.** -/
theorem reverse_reverses (h : StringAt m s t.toList) :
    ∃ m', Stored s (if t.length ≤ 2 ^ 31 then reverse t else t).toList m m' ∧
      ∀ n, t.length < n → reverseAt n s m = some m' := by
  have hlt : t.length < 2 ^ 32 := h.length_lt
  have hzero : s + BitVec.ofNat 32 0 = s := BitVec.add_zero s
  have hrev : ∀ n, t.length < n → reverseAt n s m =
      reverseLoop s n 0 (BitVec.ofNat 32 t.length - 1).toInt m := by
    intro n hn
    rw [reverseAt, strlenAt_eq h hn]
    rfl
  by_cases hlen : t.length ≤ 2 ^ 31
  · refine ⟨m.store s t.toList.reverse, ?_, fun n hn => ?_⟩
    · rw [if_pos hlen]
      exact stored_of_stringAt h List.length_reverse (reverse t).noNul
    · have hloop := reverseLoop_eq (i := 0) (hzero.symm ▸ h.bytes) hlt hn
      rw [hzero, Nat.cast_zero, zero_add] at hloop
      rw [hrev n hn, toInt_length_sub_one hlt, if_pos hlen]
      exact hloop
  · refine ⟨m, ?_, fun n hn => ?_⟩
    · rw [if_neg hlen]
      exact ⟨h, fun _ _ => rfl⟩
    · obtain ⟨n, rfl⟩ := Nat.exists_eq_succ_of_ne_zero (Nat.ne_zero_of_lt hn)
      rw [hrev _ hn, toInt_length_sub_one hlt, if_neg hlen, reverseLoop, if_neg (by omega)]

theorem reverse_reverses_ab : ∃ m', Stored 0x1000 [0x62, 0x61] (abAt 0x1000) m' ∧
    reverseAt 3 0x1000 (abAt 0x1000) = some m' := by
  obtain ⟨m', hm, hn⟩ := reverse_reverses (t := .ofList [0x61, 0x62]) (stringAt_abAt 0x1000)
  exact ⟨m', hm, hn 3 (by decide)⟩

theorem changeAt_changes {f : Byte → Byte} (hf : ∀ c, f c = 0 → c = 0) (h : StringAt m s l) :
    ∃ m', Stored s (if l.length < 2 ^ 31 then l.map f else l) m m' ∧
      ∀ n, l.length < n → changeAt f n s m = some m' := by
  have hlt := h.length_lt
  have hzero : s + BitVec.ofNat 32 0 = s := BitVec.add_zero s
  have hchange : ∀ n, l.length < n → changeAt f n s m =
      changeLoop f s (BitVec.ofNat 32 l.length).toInt n 0 m := by
    intro n hn
    rw [changeAt, strlenAt_eq h hn]
    rfl
  by_cases hlen : l.length < 2 ^ 31
  · refine ⟨m.store s (l.map f), ?_, fun n hn => ?_⟩
    · rw [if_pos hlen]
      refine stored_of_stringAt h (List.length_map _) fun h0 => ?_
      obtain ⟨c, hc, hfc⟩ := List.mem_map.mp h0
      exact h.noNul (hf c hfc ▸ hc)
    · have hloop := changeLoop_eq (i := 0) f (hzero.symm ▸ h.bytes) hlt hn
      rw [hzero, Nat.cast_zero, zero_add] at hloop
      rw [hchange n hn, toInt_length hlt, if_pos hlen]
      exact hloop
  · refine ⟨m, ?_, fun n hn => ?_⟩
    · rw [if_neg hlen]
      exact ⟨h, fun _ _ => rfl⟩
    · obtain ⟨n, rfl⟩ := Nat.exists_eq_succ_of_ne_zero (Nat.ne_zero_of_lt hn)
      rw [hchange _ hn, toInt_length hlt, if_neg hlen, changeLoop, if_neg (by omega)]

/-- **`tolower` changes the string in its place, if it has fewer than `2 ^ 31` characters, and leaves
a longer one.** -/
theorem tolower_refines (h : StringAt m s t.toList) :
    ∃ m', Stored s (if t.length < 2 ^ 31 then tolower t else t).toList m m' ∧
      ∀ n, t.length < n → tolowerAt n s m = some m' := by
  obtain ⟨m', hm, hn⟩ := changeAt_changes (f := lowerByte) (fun c => lowerByte_eq_zero) h
  refine ⟨m', ?_, hn⟩
  rwa [apply_ite CStr.toList]

theorem tolower_refines_capitals :
    ∃ m', Stored 0x1000 [0x61, 0x62] (Mem.store (fun _ => 0) 0x1000 ([0x41, 0x62] ++ [0])) m' ∧
      tolowerAt 3 0x1000 (Mem.store (fun _ => 0) 0x1000 ([0x41, 0x62] ++ [0])) = some m' := by
  obtain ⟨m', hm, hn⟩ := tolower_refines (t := .ofList [0x41, 0x62])
    (stringAt_store (by decide) (by decide))
  exact ⟨m', hm, hn 3 (by decide)⟩

end AdvancedOS
