import AdvancedOS.Lib.Numeral
import AdvancedOS.Stdio.Code

/-!
# `itoa` and `read_int`

* `itoa_eq`: **`itoa` stores the numeral of its argument, taken without a sign**;
* `reverseLoop_eq`: the second loop of `itoa` stays within `tbuf` and reverses it;
* `IsNumeral`, `itoa_isNumeral`: **this is the text of its value in the base, without a leading
  zero**;
* `readInt_digitText`: **`read_int` reads it back.**
-/

namespace AdvancedOS.Stdio

variable {i base : Word} {l s : List Byte} {n pos : ℕ}

/-- The digits of a numeral as characters. -/
def digitText (b n : ℕ) : List Byte := (numeral b n).map bchars

theorem bchars_ne_zero {d : ℕ} (h : d < 16) : bchars d ≠ 0 := by
  revert h
  revert d
  decide

theorem isdigit_bchars {d : ℕ} (h : d < 10) : isdigit (bchars d) = true := by
  revert h
  revert d
  decide

theorem bchars_ne_minus {d : ℕ} (h : d < 16) : bchars d ≠ 0x2D := by
  revert h
  revert d
  decide

theorem digitText_ne_nil (n m : ℕ) : digitText n m ≠ [] := by
  rw [digitText, ne_eq, List.map_eq_nil_iff]
  exact numeral_ne_nil n m

theorem digitText_of_ne_zero (h : i ≠ 0) :
    digitText n i.toNat = ((Nat.digits n i.toNat).map bchars).reverse := by
  have hi : i.toNat ≠ 0 := fun h0 => h (BitVec.eq_of_toNat_eq h0)
  rw [digitText, numeral_of_ne_zero hi, List.map_reverse]

theorem zero_notMem_digitText (hb : 1 < n) (hn : n ≤ 16) (m : ℕ) : 0 ∉ digitText n m := by
  intro h
  obtain ⟨d, hd, h0⟩ := List.mem_map.mp h
  exact bchars_ne_zero ((lt_of_mem_numeral hb hd).trans_le hn) h0

/-! ## `itoa` -/

/-- The digits are stored from the lowest on. -/
theorem itoaLoop_eq (hb : 1 < base.toNat) (hn : (Nat.digits base.toNat i.toNat).length ≤ n) :
    itoaLoop base n i (Bytes.ofList l) l.length =
      .ok (Bytes.ofList (l ++ (Nat.digits base.toNat i.toNat).map bchars),
        l.length + (Nat.digits base.toNat i.toNat).length) := by
  induction n generalizing i l with
  | zero =>
    have hi : i = 0 := BitVec.eq_of_toNat_eq
      (Nat.digits_eq_nil_iff_eq_zero.mp (List.length_eq_zero_iff.mp (Nat.le_zero.mp hn)))
    simp [itoaLoop, hi]
  | succ n ih =>
    rw [itoaLoop]
    split_ifs with hi
    · simp [hi]
    · have hpos : 0 < i.toNat := Nat.pos_of_ne_zero fun h => hi (BitVec.eq_of_toNat_eq h)
      have hdigits : Nat.digits base.toNat i.toNat =
          (i % base).toNat :: Nat.digits base.toNat (i / base).toNat := by
        rw [Nat.digits_def' hb hpos, BitVec.toNat_umod, BitVec.toNat_udiv]
      rw [hdigits, List.length_cons] at hn
      have hlen : l.length + 1 = (l ++ [bchars (i % base).toNat]).length := by
        rw [List.length_append, List.length_singleton]
      rw [Bytes.write_ofList, hlen, ih (Nat.le_of_succ_le_succ hn), hdigits]
      simp only [List.map_cons, List.length_cons, List.length_append, List.append_assoc,
        List.cons_append, List.nil_append, List.length_nil]
      rw [Nat.add_assoc, Nat.add_comm (0 + 1), Nat.zero_add]

theorem length_digits_le (hb : 1 < n) (i : Word) : (Nat.digits n i.toNat).length ≤ 32 := by
  rw [Nat.digits_length_le_iff hb]
  exact i.isLt.trans_le (Nat.pow_le_pow_left hb 32)

theorem itoaLoop_digits (hb : 1 < base.toNat) (i : Word) : itoaLoop base 32 i (fun _ => 0) 0 =
    .ok (Bytes.ofList ((Nat.digits base.toNat i.toNat).map bchars),
      (Nat.digits base.toNat i.toNat).length) := by
  have hloop := @itoaLoop_eq i base [] 32 hb (length_digits_le hb i)
  have hbuf : (Bytes.ofList [] : Bytes 32) = fun _ => 0 := rfl
  rwa [hbuf, List.nil_append, List.length_nil, Nat.zero_add] at hloop

/-- The digits are taken from the last one on. -/
theorem map_range_get (h : l.length ≤ 32) :
    ((List.range l.length).map fun opos => (Bytes.ofList l : Bytes 32).get (l.length - 1 - opos)) =
      l.reverse := by
  refine List.ext_getElem (by simp) fun j h₁ h₂ => ?_
  rw [List.length_reverse] at h₂
  have hj : l.length - 1 - j < l.length := by omega
  rw [List.getElem_map, List.getElem_range, List.getElem_reverse, Bytes.get_of_lt (by omega),
    Bytes.ofList, List.getElem?_eq_getElem hj, Option.getD_some]

/-- **`itoa` stores the numeral of its argument, taken without a sign.** -/
theorem itoa_eq (hb : 1 < base.toNat) (hb' : base.toNat ≤ 16) (i : Word) :
    itoa i base = .ok (.ofList (digitText base.toNat i.toNat)) := by
  have hle : ¬ 16 < base := by
    rw [BitVec.lt_def]
    exact Nat.not_lt.mpr hb'
  have hne : base ≠ 0 := by
    rintro rfl
    exact absurd hb (by decide)
  by_cases hi : i = 0
  · subst hi
    rfl
  · have hlen := length_digits_le hb i
    have hrev := @map_range_get ((Nat.digits base.toNat i.toNat).map bchars) (by simpa using hlen)
    rw [List.length_map] at hrev
    rw [itoa, if_neg (not_or.mpr ⟨hi, hle⟩), if_neg hne, itoaLoop_digits hb i,
      digitText_of_ne_zero hi, ← hrev]
    rfl

theorem itoa_ten (i : Word) : itoa i 10 = .ok (.ofList (digitText 10 i.toNat)) :=
  itoa_eq (by decide) (by decide) i

theorem itoa_sixteen (i : Word) : itoa i 16 = .ok (.ofList (digitText 16 i.toNat)) :=
  itoa_eq (by decide) (by decide) i

theorem toList_ofList_digitText (hb : 1 < n) (hn : n ≤ 16) (m : ℕ) :
    (CStr.ofList (digitText n m)).toList = digitText n m :=
  CStr.ofList_of_notMem (zero_notMem_digitText hb hn m)

/-! ## The text of a number -/

/-- The digits of the bases up to 16. -/
def digitChars : List Byte := "0123456789ABCDEF".toList.map fun c => BitVec.ofNat 8 c.toNat

/-- The value of a digit. -/
def digitValue (c : Byte) : ℕ := digitChars.idxOf c

/-- `l` is the text of the number `m` in the base `b`. -/
structure IsNumeral (b m : ℕ) (l : List Byte) : Prop where
  ne_nil : l ≠ []
  digits : ∀ c ∈ l, c ∈ digitChars ∧ digitValue c < b
  leading : l.head? = some 0x30 → m = 0 ∧ l = [0x30]
  value : l.foldl (fun v c => v * b + digitValue c) 0 = m

theorem mem_digitChars {d : ℕ} (h : d < 16) : bchars d ∈ digitChars := by
  revert h
  revert d
  decide

theorem digitValue_bchars {d : ℕ} (h : d < 16) : digitValue (bchars d) = d := by
  revert h
  revert d
  decide

theorem foldl_digitValue {b : ℕ} (ds : List ℕ) (hds : ∀ d ∈ ds, d < 16) (v : ℕ) :
    (ds.map bchars).foldl (fun v c => v * b + digitValue c) v =
      ds.foldl (fun v d => v * b + d) v := by
  induction ds generalizing v with
  | nil => rfl
  | cons d ds ih =>
    rw [List.map_cons, List.foldl_cons, List.foldl_cons, digitValue_bchars (hds d List.mem_cons_self)]
    exact ih (fun x hx => hds x (List.mem_cons_of_mem d hx)) _

theorem isNumeral_digitText (hb : 1 < n) (hn : n ≤ 16) (m : ℕ) : IsNumeral n m (digitText n m) where
  ne_nil := digitText_ne_nil n m
  digits c hc := by
    obtain ⟨d, hd, rfl⟩ := List.mem_map.mp hc
    have hlt : d < n := lt_of_mem_numeral hb hd
    rw [digitValue_bchars (hlt.trans_le hn)]
    exact ⟨mem_digitChars (hlt.trans_le hn), hlt⟩
  leading h := by
    have hzero : ∀ d : ℕ, d < 16 → bchars d = 0x30 → d = 0 := by decide
    rw [digitText, List.head?_map] at h
    obtain ⟨d, hd, hd0⟩ := Option.map_eq_some_iff.mp h
    have hlt : d < n := lt_of_mem_numeral hb (List.mem_of_head? hd)
    rw [hzero d (hlt.trans_le hn) hd0] at hd
    rw [head_numeral hd]
    exact ⟨rfl, rfl⟩
  value := by
    rw [digitText, foldl_digitValue _ fun d hd => (lt_of_mem_numeral hb hd).trans_le hn]
    exact foldl_numeral n m

theorem length_digitText (h : i ≠ 0) :
    (digitText n i.toNat).length = (Nat.digits n i.toNat).length := by
  rw [digitText_of_ne_zero h, List.length_reverse, List.length_map]

/-- The second loop of `itoa`, with its two counters: what it stores in `buf` from `opos` on. -/
def reverseLoop (tbuf : Bytes 32) (top : ℕ) : ℕ → ℤ → ℕ → Except StdFault (List Byte)
  | 0, _, _ => .error .loops
  | n + 1, pos, opos =>
    if opos < top then
      if 0 ≤ pos ∧ pos < 32 then
        (reverseLoop tbuf top n (pos - 1) (opos + 1)).map (tbuf.get pos.toNat :: ·)
      else .error .bounds
    else .ok []

theorem reverseLoop_eq {k : ℕ} (h : l.length ≤ 32) (hk : k ≤ l.length) (hn : l.length < k + n) :
    reverseLoop (Bytes.ofList l) l.length n (l.length - 1 - k) k = .ok (l.reverse.drop k) := by
  induction n generalizing k with
  | zero => exact absurd hn (not_lt.mpr hk)
  | succ n ih =>
    rw [reverseLoop]
    by_cases hlt : k < l.length
    · have hpos : (0 : ℤ) ≤ l.length - 1 - k ∧ (l.length - 1 - k : ℤ) < 32 := by omega
      have hnat : ((l.length : ℤ) - 1 - k).toNat = l.length - 1 - k := by omega
      have hnext : (l.length : ℤ) - 1 - k - 1 = l.length - 1 - (k + 1 : ℕ) := by omega
      have hin : l.length - 1 - k < l.length := by omega
      have hrev : k < l.reverse.length := by rwa [List.length_reverse]
      have hget : (Bytes.ofList l : Bytes 32).get (l.length - 1 - k) = l.reverse[k] := by
        rw [Bytes.get_of_lt (by omega), Bytes.ofList, List.getElem?_eq_getElem hin, Option.getD_some,
          List.getElem_reverse]
      rw [if_pos hlt, if_pos hpos, hnat, hget, hnext, ih hlt (by omega), List.drop_eq_getElem_cons hrev]
      rfl
    · have hend : l.reverse.length ≤ k := by
        rw [List.length_reverse]
        exact not_lt.mp hlt
      rw [if_neg hlt, List.drop_eq_nil_of_le hend]

theorem itoa_loops (hb : 2 ≤ base.toNat) (hi : i ≠ 0) :
    ∃ tbuf, itoaLoop base 32 i (fun _ => 0) 0 = .ok (tbuf, (digitText base.toNat i.toNat).length) ∧
      reverseLoop tbuf (digitText base.toNat i.toNat).length 33
        ((digitText base.toNat i.toNat).length - 1) 0 = .ok (digitText base.toNat i.toNat) := by
  have hlen := length_digits_le hb i
  have hmap : ((Nat.digits base.toNat i.toNat).map bchars).length =
      (Nat.digits base.toNat i.toNat).length := List.length_map _
  refine ⟨Bytes.ofList ((Nat.digits base.toNat i.toNat).map bchars), ?_, ?_⟩
  · rw [length_digitText hi]
    exact itoaLoop_digits hb i
  · have hrev := @reverseLoop_eq ((Nat.digits base.toNat i.toNat).map bchars) 33 0 (by omega)
      (Nat.zero_le _) (by omega)
    rw [Nat.cast_zero, sub_zero, List.drop_zero] at hrev
    rw [digitText_of_ne_zero hi, List.length_reverse]
    exact hrev

/-- **`itoa` ends within the 32 cells of `tbuf`, one for each digit, and stores the text of its argument
in the base.** -/
theorem itoa_isNumeral (i base : Word) (hb : 2 ≤ base.toNat) (hb' : base.toNat ≤ 16) :
    ∃ s : CStr, itoa i base = .ok s ∧ IsNumeral base.toNat i.toNat s.toList ∧ s.length ≤ 32 ∧
      (i ≠ 0 → ∃ tbuf, itoaLoop base 32 i (fun _ => 0) 0 = .ok (tbuf, s.length) ∧
        reverseLoop tbuf s.length 33 (s.length - 1) 0 = .ok s.toList) := by
  have htext := toList_ofList_digitText hb hb' i.toNat
  refine ⟨_, itoa_eq hb hb' i, ?_, ?_, fun hi => ?_⟩
  · rw [htext]
    exact isNumeral_digitText hb hb' i.toNat
  · rw [CStr.length, htext]
    by_cases hi : i = 0
    · subst hi
      exact Nat.one_le_ofNat
    · rw [length_digitText hi]
      exact length_digits_le hb i
  · rw [CStr.length, htext]
    exact itoa_loops hb hi

/-- In base 2 the largest number takes all 32 cells. -/
theorem itoa_isNumeral_ones : ∃ s : CStr, itoa 0xFFFFFFFF 2 = .ok s ∧
    IsNumeral (2 : Word).toNat (0xFFFFFFFF : Word).toNat s.toList ∧ s.length ≤ 32 ∧
      ((0xFFFFFFFF : Word) ≠ 0 →
        ∃ tbuf, itoaLoop 2 32 0xFFFFFFFF (fun _ => 0) 0 = .ok (tbuf, s.length) ∧
          reverseLoop tbuf s.length 33 (s.length - 1) 0 = .ok s.toList) :=
  itoa_isNumeral 0xFFFFFFFF 2 (by decide) (by decide)

/-! ## `read_int` -/

theorem readDigits_append (hl : ∀ c ∈ l, isdigit c) (hs : ∀ c ∈ s.head?, isdigit c = false)
    (ret : Word) (cnt : ℕ) : readDigits (l ++ s) ret cnt =
      (l.foldl (fun v c => v * 10 + (c.setWidth 32 - 0x30)) ret, cnt + l.length) := by
  induction l generalizing ret cnt with
  | nil =>
    cases s with
    | nil => rfl
    | cons c s =>
      have hc : isdigit c = false := hs c rfl
      simp [readDigits, hc]
  | cons c l ih =>
    have hc : isdigit c = true := hl c List.mem_cons_self
    rw [List.cons_append, readDigits, if_pos hc, ih fun x hx => hl x (List.mem_cons_of_mem c hx),
      List.foldl_cons, List.length_cons, Nat.add_assoc, Nat.add_comm 1]

theorem readInt_append (hl : ∀ c ∈ l, isdigit c) (hs : ∀ c ∈ s.head?, isdigit c = false)
    (hne : l ≠ []) : readInt (l ++ s) =
      (l.foldl (fun v c => v * 10 + (c.setWidth 32 - 0x30)) 0, l.length) := by
  have hhead : (l ++ s).head? ≠ some 0x2D := by
    obtain ⟨c, l', rfl⟩ := List.exists_cons_of_ne_nil hne
    intro h
    have hc : c = 0x2D := Option.some.inj h
    exact absurd (hl c List.mem_cons_self) (hc ▸ by decide)
  rw [readInt, if_neg hhead, readDigits_append hl hs]
  simp

theorem digit_value {d : ℕ} (h : d < 10) :
    (bchars d).setWidth 32 - 0x30 = (BitVec.ofNat 32 d : Word) := by
  revert h
  revert d
  decide

theorem foldl_digits (ds : List ℕ) (hds : ∀ d ∈ ds, d < 10) (v : ℕ) :
    (ds.map bchars).foldl (fun v c => v * 10 + (c.setWidth 32 - 0x30)) (BitVec.ofNat 32 v) =
      (BitVec.ofNat 32 (ds.foldl (fun v d => v * 10 + d) v) : Word) := by
  induction ds generalizing v with
  | nil => rfl
  | cons d ds ih =>
    have hstep : (BitVec.ofNat 32 v * 10 + BitVec.ofNat 32 d : Word) = BitVec.ofNat 32 (v * 10 + d) := by
      rw [BitVec.ofNat_add, BitVec.ofNat_mul]
      rfl
    rw [List.map_cons, List.foldl_cons, List.foldl_cons, digit_value (hds d List.mem_cons_self), hstep]
    exact ih (fun x hx => hds x (List.mem_cons_of_mem d hx)) _

theorem isdigit_of_mem_digitText {m : ℕ} {c : Byte} (hc : c ∈ digitText 10 m) : isdigit c := by
  obtain ⟨d, hd, rfl⟩ := List.mem_map.mp hc
  exact isdigit_bchars (lt_of_mem_numeral (by decide) hd)

/-- **`read_int` reads back what `itoa` has stored**, where no further digit follows. -/
theorem readInt_digitText (i : Word) (hs : ∀ c ∈ s.head?, isdigit c = false) :
    readInt (digitText 10 i.toNat ++ s) = (i, (digitText 10 i.toNat).length) := by
  have hval := foldl_digits (numeral 10 i.toNat)
    (fun d hd => lt_of_mem_numeral (by decide) hd) 0
  rw [foldl_numeral, BitVec.ofNat_toNat, BitVec.setWidth_eq] at hval
  rw [readInt_append (fun c hc => isdigit_of_mem_digitText hc) hs (digitText_ne_nil _ _)]
  exact congrArg (·, _) hval

end AdvancedOS.Stdio
