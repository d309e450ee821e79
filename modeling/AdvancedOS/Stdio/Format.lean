import AdvancedOS.Stdio.Numeral
import AdvancedOS.Stdio.Output

/-!
# Formats

* `charAt_append`, `restAt_append`: a string at an index, by the part before it and the rest;
* `formatLoop_end`, `formatLoop_lit`, `formatLoop_conv`: **what the loop of `sprintf` and `printf` does
  at the end, at a literal character and at a conversion**;
* `Item`: the parts of a format with literal characters and with `%d`, `%x` and `%s`;
* `printed_items`, `sprintf_items`: what becomes of such a format;
* `faithful_iff`: **such a format is output faithfully exactly if no `%d` has a negative argument**;
* `not_faithful`: `%d` with `-1`.
-/

namespace AdvancedOS.Stdio

variable {σ : Type} {out : Output σ} {format s : CStr} {args : ℕ → Arg} {p q w : List Byte} {c : Byte}
  {i j k n : ℕ} {t : σ}

/-! ## A string at an index -/

theorem charAt_append (h : s.toList = p ++ q) (hj : j ≤ q.length) :
    charAt s (p.length + j) = .ok (q[j]?.getD 0) := by
  have hlen : s.length = p.length + q.length := by rw [CStr.length, h, List.length_append]
  have hin : (0 : ℤ) ≤ p.length + j ∧ (p.length + j : ℤ) ≤ s.length := by omega
  have hnat : ((p.length : ℤ) + j).toNat = p.length + j := by omega
  rw [charAt, if_pos hin, hnat, h, List.getElem?_append_right (Nat.le_add_right _ _),
    Nat.add_sub_cancel_left]

theorem charAt_head (h : s.toList = p ++ q) : charAt s p.length = .ok (q.headD 0) := by
  have hchar := charAt_append h (Nat.zero_le _)
  rw [Nat.cast_zero, add_zero] at hchar
  rw [hchar]
  cases q <;> rfl

theorem restAt_append (h : s.toList = p ++ q) (j : ℕ) : restAt s (p.length + j) = q.drop j := by
  rw [restAt, h, List.drop_length_add_append]

theorem ne_zero_of_toList (h : s.toList = p ++ c :: q) : c ≠ 0 := fun h0 =>
  s.noNul (h ▸ List.mem_append_right p (h0 ▸ List.mem_cons_self))

/-! ## Widths -/

/-- The number of characters of the width at the start of `l`. -/
def widthOf (l : List Byte) : ℕ :=
  if isdigit (l.headD 0) ∨ l.headD 0 = 0x2D then (readInt l).2 else 0

theorem digitLength_eq (h : s.toList = p ++ c :: q) : digitLength s p.length = .ok (widthOf q) := by
  have h' : s.toList = (p ++ [c]) ++ q := by rw [h, List.append_assoc, List.singleton_append]
  have hlen : ((p ++ [c]).length : ℤ) = p.length + 1 := by
    rw [List.length_append, List.length_singleton]
    push_cast
    rfl
  have hchar := charAt_head h'
  have hrest := restAt_append h' 0
  rw [hlen] at hchar
  rw [Nat.add_zero, List.length_append, List.length_singleton, List.drop_zero] at hrest
  rw [digitLength, hchar, hrest]
  rfl

/-- A width: digits, with a sign before them or without. -/
def IsWidth (w : List Byte) : Prop :=
  (∀ c ∈ w.head?, isdigit c ∨ c = 0x2D) ∧ ∀ c ∈ w.tail, isdigit c

instance (w : List Byte) : Decidable (IsWidth w) := inferInstanceAs (Decidable (_ ∧ _))

theorem widthOf_append (hw : IsWidth w) (hc : isdigit c = false) (hs : c ≠ 0x2D) (q : List Byte) :
    widthOf (w ++ c :: q) = w.length := by
  have hrest : ∀ x ∈ (c :: q).head?, isdigit x = false := by
    rintro x ⟨⟩
    exact hc
  cases w with
  | nil =>
    have hhead : ([] ++ c :: q).headD 0 = c := rfl
    rw [widthOf, hhead, if_neg (not_or.mpr ⟨Bool.not_eq_true _ ▸ hc, hs⟩)]
    rfl
  | cons d w =>
    have hd : isdigit d ∨ d = 0x2D := hw.1 d rfl
    have hdigits : ∀ x ∈ w, isdigit x := hw.2
    have hhead : (d :: w ++ c :: q).headD 0 = d := rfl
    rw [widthOf, hhead, if_pos hd]
    by_cases hm : d = 0x2D
    · have hfirst : (d :: w ++ c :: q).head? = some 0x2D := congrArg some hm
      have htail : (d :: w ++ c :: q).tail = w ++ c :: q := rfl
      rw [readInt, if_pos hfirst, htail, readDigits_append hdigits hrest, List.length_cons,
        Nat.add_comm]
    · have hall : ∀ x ∈ d :: w, isdigit x := by
        intro x hx
        rcases List.mem_cons.mp hx with rfl | hx
        · exact hd.resolve_right hm
        · exact hdigits x hx
      rw [readInt_append hall hrest (List.cons_ne_nil _ _)]

/-! ## The loop -/

theorem formatLoop_end (n k : ℕ) (t : σ) :
    formatLoop out format args (n + 1) format.length k t = .ok t := by
  have hchar := charAt_head (s := format) (p := format.toList) (q := []) (List.append_nil _).symm
  rw [formatLoop, CStr.length, hchar]
  rfl

theorem formatLoop_lit (h : format.toList = p ++ c :: q) (hc : c ≠ 0x25) (n k : ℕ) (t : σ) :
    formatLoop out format args (n + 1) p.length k t =
      formatLoop out format args n (p ++ [c]).length k (out.char (if c = 0x0D then 0x0A else c) t) := by
  have hchar : charAt format p.length = .ok c := charAt_head h
  have h0 := ne_zero_of_toList h
  have hlen : (p ++ [c]).length = p.length + 1 := List.length_append
  simp only [formatLoop, hchar, hlen, bind, Except.bind, h0, hc, if_false]
  by_cases hn : c = 0x0A
  · subst hn
    rfl
  · by_cases hr : c = 0x0D
    · rw [if_pos (.inr hr), if_pos hr]
    · rw [if_neg (not_or.mpr ⟨hn, hr⟩), if_neg hr]

theorem formatLoop_conv (h : format.toList = p ++ 0x25 :: (w ++ c :: q))
    (hw : widthOf (w ++ c :: q) = w.length) (n k : ℕ) (t : σ) :
    formatLoop out format args (n + 1) p.length k t =
      (convert out args c k t).bind fun x =>
        formatLoop out format args n (p ++ 0x25 :: (w ++ [c])).length x.1 x.2 := by
  have hpercent : charAt format p.length = .ok 0x25 := charAt_head h
  have hne : (0x25 : Byte) ≠ 0 := by decide
  have hdigit := digitLength_eq h
  have hconv : charAt format (p.length + w.length + 1) = .ok c := by
    have hchar := charAt_append h (j := w.length + 1) (by
      simp only [List.length_cons, List.length_append]
      omega)
    rw [Nat.cast_add, Nat.cast_one, ← add_assoc] at hchar
    rw [hchar, List.getElem?_cons_succ, List.getElem?_append_right le_rfl, Nat.sub_self]
    rfl
  have hlen : (p ++ 0x25 :: (w ++ [c])).length = p.length + (1 + w.length) + 1 := by
    simp only [List.length_append, List.length_cons, List.length_nil]
    omega
  simp only [formatLoop, hpercent, hdigit, hw, hconv, hlen, bind, Except.bind, hne, if_false, if_true]

/-! ## Formats with numbers -/

/-- A part of a format: a literal character, `%d` and `%x`, with a width or without, and `%s`. -/
inductive Item where
  | lit (c : Byte)
  | dec (width : List Byte)
  | hex (width : List Byte)
  | str

namespace Item

/-- The characters in the format. -/
def text : Item → List Byte
  | lit c => [c]
  | dec w => 0x25 :: (w ++ [0x64])
  | hex w => 0x25 :: (w ++ [0x78])
  | str => [0x25, 0x73]

/-- The characters that are literal are, and the widths are widths. -/
def Ok : Item → Prop
  | lit c => c ≠ 0x25 ∧ c ≠ 0x0D
  | dec w => IsWidth w
  | hex w => IsWidth w
  | str => True

instance (x : Item) : Decidable x.Ok :=
  match x with
  | lit _ => inferInstanceAs (Decidable (_ ∧ _))
  | dec w => inferInstanceAs (Decidable (IsWidth w))
  | hex w => inferInstanceAs (Decidable (IsWidth w))
  | str => instDecidableTrue

end Item

/-- The decimal numeral of a number with a sign. -/
def decimal (x : ℤ) : List Byte :=
  if x < 0 then 0x2D :: digitText 10 x.natAbs else digitText 10 x.natAbs

variable {items : List Item}

/-- What the parts of a format stand for, from the argument `k` on. -/
def expected (args : ℕ → Arg) : ℕ → List Item → List Byte
  | _, [] => []
  | k, .lit c :: l => c :: expected args k l
  | k, .dec _ :: l => decimal (args k).word.toInt ++ expected args (k + 1) l
  | k, .hex _ :: l => digitText 16 (args k).word.toNat ++ expected args (k + 1) l
  | k, .str :: l => (args k).text.toList ++ expected args (k + 1) l

/-- What the code makes of them: every argument is taken without a sign. -/
def actual (args : ℕ → Arg) : ℕ → List Item → List Byte
  | _, [] => []
  | k, .lit c :: l => c :: actual args k l
  | k, .dec _ :: l => digitText 10 (args k).word.toNat ++ actual args (k + 1) l
  | k, .hex _ :: l => digitText 16 (args k).word.toNat ++ actual args (k + 1) l
  | k, .str :: l => (args k).text.toList ++ actual args (k + 1) l

/-- No `%d` has a negative argument. -/
def NonNeg (args : ℕ → Arg) : ℕ → List Item → Prop
  | _, [] => True
  | k, .lit _ :: l => NonNeg args k l
  | k, .dec _ :: l => 0 ≤ (args k).word.toInt ∧ NonNeg args (k + 1) l
  | k, .hex _ :: l => NonNeg args (k + 1) l
  | k, .str :: l => NonNeg args (k + 1) l

theorem str_digitText (putc : Byte → σ → σ) (hi : 1 < i) (hi' : i ≤ 16) (m : ℕ) (t : σ) :
    (printing putc).str (.ofList (digitText i m)) t =
      (digitText i m).foldl (fun t c => putc c t) t := by
  simp only [printing, toList_ofList_digitText hi hi']

/-- **What the loop makes of the parts of a format.** -/
theorem formatLoop_items (putc : Byte → σ → σ) (items : List Item) (hok : ∀ x ∈ items, x.Ok)
    (h : format.toList = p ++ items.flatMap Item.text) (hn : items.length < n) (k : ℕ) (t : σ) :
    formatLoop (printing putc) format args n p.length k t =
      .ok ((actual args k items).foldl (fun t c => putc c t) t) := by
  induction items generalizing p n k t with
  | nil =>
    obtain ⟨n, rfl⟩ := Nat.exists_eq_succ_of_ne_zero (Nat.ne_zero_of_lt hn)
    rw [List.flatMap_nil, List.append_nil] at h
    rw [← h]
    exact formatLoop_end n k t
  | cons x items ih =>
    obtain ⟨n, rfl⟩ := Nat.exists_eq_succ_of_ne_zero (Nat.ne_zero_of_lt hn)
    have hok' : ∀ x ∈ items, x.Ok := fun y hy => hok y (List.mem_cons_of_mem x hy)
    have hn' : items.length < n := Nat.lt_of_succ_lt_succ hn
    have hx : x.Ok := hok x List.mem_cons_self
    have hrest : format.toList = (p ++ x.text) ++ items.flatMap Item.text := by
      rw [h, List.flatMap_cons, List.append_assoc]
    rw [List.flatMap_cons] at h
    cases x with
    | lit c =>
      rw [formatLoop_lit h hx.1, if_neg hx.2]
      exact ih hok' hrest hn' _ _
    | dec w =>
      have h : format.toList = p ++ 0x25 :: (w ++ 0x64 :: items.flatMap Item.text) := by
        rw [h, Item.text, List.cons_append, List.append_assoc, List.singleton_append]
      have hconv : convert (printing putc) args 0x64 k t =
          .ok (k + 1, (digitText 10 (args k).word.toNat).foldl (fun t c => putc c t) t) := by
        rw [convert, if_pos (.inl rfl), itoa_ten]
        exact congrArg (fun t => Except.ok (k + 1, t)) (str_digitText putc (by decide) (by decide) _ t)
      rw [formatLoop_conv h (widthOf_append hx (by decide) (by decide) _), hconv, actual,
        List.foldl_append]
      exact ih hok' hrest hn' _ _
    | hex w =>
      have h : format.toList = p ++ 0x25 :: (w ++ 0x78 :: items.flatMap Item.text) := by
        rw [h, Item.text, List.cons_append, List.append_assoc, List.singleton_append]
      have hconv : convert (printing putc) args 0x78 k t =
          .ok (k + 1, (digitText 16 (args k).word.toNat).foldl (fun t c => putc c t) t) := by
        rw [convert, if_neg (by decide), if_pos (.inl rfl), itoa_sixteen]
        exact congrArg (fun t => Except.ok (k + 1, t)) (str_digitText putc (by decide) (by decide) _ t)
      rw [formatLoop_conv h (widthOf_append hx (by decide) (by decide) _), hconv, actual,
        List.foldl_append]
      exact ih hok' hrest hn' _ _
    | str =>
      have hw : IsWidth [] := ⟨fun c hc => (Option.not_mem_none c hc).elim,
        fun c hc => (List.not_mem_nil hc).elim⟩
      have hconv : convert (printing putc) args 0x73 k t =
          .ok (k + 1, (args k).text.toList.foldl (fun t c => putc c t) t) := rfl
      rw [formatLoop_conv (w := []) h (widthOf_append hw (by decide) (by decide) _), hconv, actual,
        List.foldl_append]
      exact ih hok' hrest hn' _ _

theorem zero_notMem_actual (h : format.toList = items.flatMap Item.text) (args : ℕ → Arg) (k : ℕ) :
    0 ∉ actual args k items := by
  have hlit : ∀ c, Item.lit c ∈ items → c ≠ 0 := fun c hc h0 =>
    format.noNul (h ▸ List.mem_flatMap.mpr ⟨_, hc, h0 ▸ List.mem_singleton_self _⟩)
  clear h
  induction items generalizing k with
  | nil => exact List.not_mem_nil
  | cons x items ih =>
    have ih := fun k => ih k fun c hc => hlit c (List.mem_cons_of_mem x hc)
    cases x with
    | lit c =>
      rw [actual, List.mem_cons, not_or]
      exact ⟨(hlit c List.mem_cons_self).symm, ih k⟩
    | dec w =>
      rw [actual, List.mem_append, not_or]
      exact ⟨zero_notMem_digitText (by decide) (by decide) _, ih (k + 1)⟩
    | hex w =>
      rw [actual, List.mem_append, not_or]
      exact ⟨zero_notMem_digitText (by decide) (by decide) _, ih (k + 1)⟩
    | str =>
      rw [actual, List.mem_append, not_or]
      exact ⟨(args k).text.noNul, ih (k + 1)⟩

theorem length_le_flatMap (items : List Item) :
    items.length ≤ (items.flatMap Item.text).length := by
  induction items with
  | nil => exact le_rfl
  | cons x items ih =>
    have hone : 1 ≤ x.text.length := by
      cases x <;> exact Nat.succ_le_succ (Nat.zero_le _)
    rw [List.flatMap_cons, List.length_append, List.length_cons]
    omega

theorem printed_items (hok : ∀ x ∈ items, x.Ok) (h : format.toList = items.flatMap Item.text)
    (args : ℕ → Arg) : printed format args = .ok (actual args 0 items) := by
  have hlen : items.length ≤ format.length := by
    rw [CStr.length, h]
    exact length_le_flatMap items
  have hloop : formatLoop (printing fun x (l : List Byte) => l ++ [x]) format args
      (format.length + 2) 0 0 [] = _ :=
    formatLoop_items (p := []) _ items hok h (by omega) 0 []
  rw [foldl_append_singleton] at hloop
  exact hloop

theorem sprintf_items (hok : ∀ x ∈ items, x.Ok) (h : format.toList = items.flatMap Item.text)
    (args : ℕ → Arg) : ∃ s, sprintf format args = .ok s ∧ s.toList = actual args 0 items := by
  have hfilter : (actual args 0 items).filter (· ≠ 0) = actual args 0 items := by
    refine List.filter_eq_self.mpr fun b hb => ?_
    simpa using fun h0 : b = 0 => zero_notMem_actual h args 0 (h0 ▸ hb)
  refine ⟨withoutNul (actual args 0 items), ?_, hfilter⟩
  rw [sprintf_eq, printed_items hok h]
  rfl

/-! ## Faithful output -/

theorem decimal_of_nonneg {x : Word} (h : 0 ≤ x.toInt) : decimal x.toInt = digitText 10 x.toNat := by
  have hx : x.toInt.natAbs = x.toNat := by
    rw [BitVec.toInt_eq_toNat_cond] at h ⊢
    split_ifs at h ⊢ <;> omega
  rw [decimal, if_neg (not_lt.mpr h), hx]

/-- The numeral of a negative number begins with the sign, that of the same bits without a sign does
not. -/
theorem digitText_append_ne {x : Word} (h : x.toInt < 0) (l l' : List Byte) :
    digitText 10 x.toNat ++ l ≠ decimal x.toInt ++ l' := by
  obtain ⟨d, ds, hds⟩ := List.exists_cons_of_ne_nil (numeral_ne_nil 10 x.toNat)
  have hd : d < 10 := lt_of_mem_numeral (by decide) (hds ▸ List.mem_cons_self)
  intro heq
  rw [decimal, if_pos h, digitText, hds, List.map_cons, List.cons_append, List.cons_append] at heq
  exact bchars_ne_minus (hd.trans (by decide)) (List.cons.inj heq).1

theorem actual_eq_expected (args : ℕ → Arg) (k : ℕ) (items : List Item) :
    actual args k items = expected args k items ↔ NonNeg args k items := by
  induction items generalizing k with
  | nil => exact iff_of_true rfl trivial
  | cons x items ih =>
    cases x with
    | lit c => rw [actual, expected, List.cons_inj_right, ih, NonNeg]
    | hex w => rw [actual, expected, List.append_right_inj, ih, NonNeg]
    | str => rw [actual, expected, List.append_right_inj, ih, NonNeg]
    | dec w =>
      rw [actual, expected, NonNeg]
      by_cases h : 0 ≤ (args k).word.toInt
      · rw [decimal_of_nonneg h, List.append_right_inj, ih, and_iff_right h]
      · exact iff_of_false (digitText_append_ne (not_le.mp h) _ _) fun hn => h hn.1

/-- `sprintf` and `printf` output what the format stands for. -/
def Faithful (items : List Item) (format : CStr) (args : ℕ → Arg) : Prop :=
  (sprintf format args).map CStr.toList = .ok (expected args 0 items) ∧
    printed format args = .ok (expected args 0 items)

/-- **Integers are output faithfully exactly if no `%d` has a negative argument.** -/
theorem faithful_iff (items : List Item) (hok : ∀ x ∈ items, x.Ok)
    (h : format.toList = items.flatMap Item.text) (args : ℕ → Arg) :
    Faithful items format args ↔ NonNeg args 0 items := by
  obtain ⟨s, hs, hlist⟩ := sprintf_items hok h args
  have hmap : (sprintf format args).map CStr.toList = .ok (actual args 0 items) := by
    rw [hs, ← hlist]
    rfl
  rw [Faithful, printed_items hok h, hmap, and_self, Except.ok.injEq, actual_eq_expected]

/-- The arguments of a call. -/
def argsOf (l : List Arg) (k : ℕ) : Arg := l.getD k ⟨0, .ofList []⟩

/-- A number as an argument. -/
def Arg.ofWord (x : Word) : Arg := ⟨x, .ofList []⟩

theorem faithful_iff_twoNumbers :
    Faithful [.lit 0x61, .dec [0x35], .hex []] (.ofChars "a%5d%x".toList)
        (argsOf [.ofWord 12, .ofWord 255]) ↔
      NonNeg (argsOf [.ofWord 12, .ofWord 255]) 0 [.lit 0x61, .dec [0x35], .hex []] :=
  faithful_iff _ (by decide) (by decide) _

/-- `-1` is output as 4294967295. -/
theorem not_faithful : ¬ Faithful [.dec []] (.ofChars "%d".toList) (argsOf [.ofWord (-1)]) := by
  rintro ⟨-, h⟩
  revert h
  decide +kernel

end AdvancedOS.Stdio
