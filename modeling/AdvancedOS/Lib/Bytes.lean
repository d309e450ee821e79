import Mathlib.Data.Fintype.Basic
import Mathlib.Data.List.TakeWhile
import Mathlib.Logic.Function.Basic

/-!
# Byte arrays and C strings

`Bytes n` is an array of `n` bytes, read at natural numbers by `get`, and `CStr` a C string: its
bytes up to the terminating zero, which is not among them.

* `Bytes.write`, `Bytes.fill`: storing bytes at an offset, and one byte over a range;
* `Bytes.u16`, `Bytes.u32`: little-endian numbers in an array, with `le16` and `le32` for storing
  them;
* `Bytes.cstr`: the string at an offset; `Bytes.cstr_write`: **a string that is stored with its
  terminating zero is read back**.
-/

abbrev Byte := BitVec 8

instance : LawfulBEq Byte := inferInstance

/-- An array of `n` bytes. -/
abbrev Bytes (n : ℕ) := Fin n → Byte

/-- A C string, without its terminating zero. -/
@[ext] structure CStr where
  toList : List Byte
  noNul : 0 ∉ toList
  deriving DecidableEq

namespace CStr

/-- The string in a sequence of bytes. -/
def ofList (l : List Byte) : CStr where
  toList := l.takeWhile (· ≠ 0)
  noNul h := by simpa using List.mem_takeWhile_imp h

/-- A string literal. -/
def ofChars (l : List Char) : CStr := ofList (l.map fun c => BitVec.ofNat 8 c.toNat)

/-- The length, without the terminating zero. -/
def length (s : CStr) : ℕ := s.toList.length

/-- The part of `s` before the first `d`, or all of it. -/
def before (d : Byte) (s : CStr) : CStr where
  toList := s.toList.takeWhile (· ≠ d)
  noNul h := s.noNul (List.takeWhile_subset _ h)

/-- The part of `s` after the first `d`, if there is one. -/
def after (d : Byte) (s : CStr) : Option CStr :=
  if d ∈ s.toList then
    some {
      toList := (s.toList.dropWhile (· ≠ d)).tail
      noNul := fun h => s.noNul ((List.dropWhile_suffix _).subset (List.mem_of_mem_tail h)) }
  else none

theorem takeWhile_append_zero (s : CStr) (l : List Byte) :
    (s.toList ++ 0 :: l).takeWhile (· ≠ 0) = s.toList := by
  rw [List.takeWhile_append_of_pos fun b hb => ?_]
  · simp
  · simpa using fun h : b = 0 => s.noNul (h ▸ hb)

@[simp] theorem ofList_toList (s : CStr) : ofList s.toList = s := by
  ext1
  refine List.takeWhile_eq_self_iff.mpr fun b hb => ?_
  simpa using fun h : b = 0 => s.noNul (h ▸ hb)

theorem ofList_of_notMem {l : List Byte} (h : 0 ∉ l) : (ofList l).toList = l := by
  refine List.takeWhile_eq_self_iff.mpr fun b hb => ?_
  simpa using fun hb0 : b = 0 => h (hb0 ▸ hb)

theorem ofList_eq_iff {l : List Byte} {s : CStr} (h : s.length < l.length) :
    ofList l = s ↔ s.toList ++ [0] <+: l := by
  constructor
  · rintro rfl
    have hl : (ofList l).toList ++ l.dropWhile (· ≠ 0) = l := List.takeWhile_append_dropWhile
    cases hd : l.dropWhile (· ≠ 0) with
    | nil =>
      rw [hd, List.append_nil] at hl
      exact absurd (congrArg List.length hl) h.ne
    | cons c r =>
      have hc := List.head?_dropWhile_not (· ≠ (0 : Byte)) l
      rw [hd] at hc
      have hc : c = 0 := by simpa using hc
      rw [hd, hc] at hl
      exact ⟨r, by rw [List.append_assoc]; exact hl⟩
  · rintro ⟨r, hr⟩
    ext1
    rw [List.append_assoc] at hr
    rw [← hr]
    exact takeWhile_append_zero s r

theorem length_before_le (s : CStr) (d : Byte) : (s.before d).length ≤ s.length :=
  (List.takeWhile_prefix _).length_le

theorem before_append_after {s x : CStr} {d : Byte} (h : s.after d = some x) :
    (s.before d).toList ++ d :: x.toList = s.toList := by
  have key : ∀ l : List Byte, d ∈ l →
      l.takeWhile (· ≠ d) ++ d :: (l.dropWhile (· ≠ d)).tail = l := by
    intro l hd
    induction l with
    | nil => cases hd
    | cons b l ih =>
      by_cases hb : b = d
      · rw [List.takeWhile_cons_of_neg (by simpa using hb), List.dropWhile_cons_of_neg (by simpa using hb),
          hb]
        rfl
      · rw [List.takeWhile_cons_of_pos (by simpa using hb), List.dropWhile_cons_of_pos (by simpa using hb),
          List.cons_append, ih ((List.mem_cons.mp hd).resolve_left (Ne.symm hb))]
  unfold after at h
  split_ifs at h with hd
  cases h
  exact key s.toList hd

theorem length_before_add_after {s x : CStr} {d : Byte} (h : s.after d = some x) :
    s.length = (s.before d).length + x.length + 1 := by
  have h := congrArg List.length (before_append_after h)
  rw [List.length_append, List.length_cons] at h
  exact h.symm

theorem before_eq_self {s : CStr} {d : Byte} (h : s.after d = none) : s.before d = s := by
  unfold after at h
  split_ifs at h with hd
  ext1
  exact List.takeWhile_eq_self_iff.mpr fun b hb => by simpa using fun he : b = d => hd (he ▸ hb)

end CStr

namespace Bytes

variable {n : ℕ} {b : Bytes n} {i o : ℕ} {l : List Byte}

/-- The byte at `i`; there is none at or above `n`. -/
def get (b : Bytes n) (i : ℕ) : Byte := if h : i < n then b ⟨i, h⟩ else 0

/-- The first `n` bytes of a sequence. -/
def ofList (l : List Byte) : Bytes n := fun i => l[(i : ℕ)]?.getD 0

/-- Store `l` from offset `o` on. -/
def write (o : ℕ) (l : List Byte) (b : Bytes n) : Bytes n := fun i =>
  if o ≤ i then l[(i : ℕ) - o]?.getD (b i) else b i

/-- Store `v` at the offsets from `o` to below `e`. -/
def fill (o e : ℕ) (v : Byte) (b : Bytes n) : Bytes n := fun i => if o ≤ i ∧ i < e then v else b i

/-- The little-endian 16-bit number at `o`. -/
def u16 (b : Bytes n) (o : ℕ) : BitVec 16 := b.get (o + 1) ++ b.get o

/-- The little-endian 32-bit number at `o`. -/
def u32 (b : Bytes n) (o : ℕ) : BitVec 32 := b.u16 (o + 2) ++ b.u16 o

/-- The bytes of a 16-bit number, low byte first. -/
def le16 (x : BitVec 16) : List Byte := [x.extractLsb' 0 8, x.extractLsb' 8 8]

/-- The bytes of a 32-bit number, low byte first. -/
def le32 (x : BitVec 32) : List Byte := le16 (x.extractLsb' 0 16) ++ le16 (x.extractLsb' 16 16)

/-- The string at `o`. -/
def cstr (b : Bytes n) (o : ℕ) : CStr := .ofList ((List.ofFn b).drop o)

theorem get_of_lt (h : i < n) : b.get i = b ⟨i, h⟩ := dif_pos h

@[simp] theorem get_fin (b : Bytes n) (i : Fin n) : b.get i = b i := dif_pos i.isLt

theorem ext_get {c : Bytes n} (h : ∀ i < n, b.get i = c.get i) : b = c := by
  funext i
  rw [← get_fin b i, ← get_fin c i, h i i.isLt]

theorem get_write : (write o l b).get i =
    if o ≤ i ∧ i < n then l[i - o]?.getD (b.get i) else b.get i := by
  by_cases hi : i < n
  · by_cases ho : o ≤ i <;> simp [get, write, hi, ho]
  · simp [get, hi]

theorem get_fill {e : ℕ} {v : Byte} (hi : i < n) : (fill o e v b).get i =
    if o ≤ i ∧ i < e then v else b.get i := by
  simp [get, fill, hi]

theorem get_write_of_notMem (h : i < o ∨ o + l.length ≤ i) : (write o l b).get i = b.get i := by
  rw [get_write]
  split_ifs with hi
  · rw [List.getElem?_eq_none (by omega)]
    rfl
  · rfl

theorem getElem?_drop_ofFn (b : Bytes n) (o i : ℕ) :
    ((List.ofFn b).drop o)[i]? = if o + i < n then some (b.get (o + i)) else none := by
  rw [List.getElem?_drop]
  split_ifs with h
  · rw [get_of_lt h]
    simp [h]
  · simpa using h

/-- **A string that is stored with its terminating zero is read back.** -/
theorem cstr_write (s : CStr) (h : o + s.length < n) :
    (write o (s.toList ++ [0]) b).cstr o = s := by
  have hl : s.toList.length = s.length := rfl
  have hdrop : (List.ofFn (write o (s.toList ++ [0]) b)).drop o =
      s.toList ++ 0 :: (List.ofFn b).drop (o + s.length + 1) := by
    apply List.ext_getElem?
    intro i
    rw [getElem?_drop_ofFn, get_write]
    rcases Nat.lt_trichotomy i s.length with hi | rfl | hi
    · simp [List.getElem?_append, hl, hi, show o + i < n by omega, show i < s.length + 1 by omega]
    · simp [hl, h]
    · have hnone : (s.toList ++ [0])[i]? = none :=
        List.getElem?_eq_none (by simp only [List.length_append, List.length_singleton]; omega)
      have hrest : (s.toList ++ 0 :: (List.ofFn b).drop (o + s.length + 1))[i]? =
          if o + i < n then some (b.get (o + i)) else none := by
        rw [List.getElem?_append_right (hl ▸ hi.le), hl,
          show i - s.length = (i - s.length - 1) + 1 by omega, List.getElem?_cons_succ,
          getElem?_drop_ofFn, show o + s.length + 1 + (i - s.length - 1) = o + i by omega]
      rw [hrest, Nat.add_sub_cancel_left, hnone]
      simp
  ext1
  change List.takeWhile _ _ = _
  rw [hdrop]
  exact s.takeWhile_append_zero _

theorem length_cstr_le : (b.cstr o).length ≤ n := by
  refine (List.takeWhile_prefix _).length_le.trans ?_
  rw [List.length_drop, List.length_ofFn]
  exact Nat.sub_le n o

/-! ## Building an array from the front -/

theorem isPrefix_write (h : l.length ≤ n) (b : Bytes n) : l <+: List.ofFn (write 0 l b) := by
  rw [List.prefix_iff_getElem?]
  intro i hi
  have hn : i < n := hi.trans_le h
  simp [write, hi, hn]

theorem write_ofList {d : List Byte} :
    write l.length d (ofList l : Bytes n) = ofList (l ++ d) := by
  funext i
  simp only [write, ofList]
  split_ifs with h
  · rw [List.getElem?_append_right h, List.getElem?_eq_none h, Option.getD_none]
  · rw [List.getElem?_append_left (Nat.not_le.mp h)]

theorem ofList_append_zero : (ofList (l ++ [0]) : Bytes n) = ofList l := by
  funext i
  simp only [ofList]
  rcases Nat.lt_trichotomy (i : ℕ) l.length with h | h | h
  · rw [List.getElem?_append_left h]
  · rw [h]
    simp
  · rw [List.getElem?_eq_none (by simp only [List.length_append, List.length_singleton]; omega),
      List.getElem?_eq_none h.le]

/-- What follows a sequence that stops does not matter. -/
theorem takeWhile_append_replicate {p : Byte → Bool} {a : Byte} (ha : p a = false) (m : ℕ) :
    (l ++ List.replicate m a).takeWhile p = l.takeWhile p := by
  induction l with
  | nil =>
    cases m with
    | zero => rfl
    | succ m =>
      rw [List.nil_append, List.replicate_succ, List.takeWhile_cons_of_neg (by simp [ha])]
      rfl
  | cons b l ih =>
    rw [List.cons_append, List.takeWhile_cons, List.takeWhile_cons, ih]

theorem cstr_ofList (h : l.length ≤ n) : (ofList l : Bytes n).cstr 0 = CStr.ofList l := by
  have hl : List.ofFn (ofList l : Bytes n) = l ++ List.replicate (n - l.length) 0 := by
    refine List.ext_getElem (by simp; omega) fun i h₁ h₂ => ?_
    rw [List.getElem_ofFn, List.getElem_append, ofList]
    split_ifs with hi
    · rw [List.getElem?_eq_getElem hi, Option.getD_some]
    · rw [List.getElem?_eq_none (Nat.not_lt.mp hi), List.getElem_replicate, Option.getD_none]
  ext1
  change List.takeWhile _ _ = List.takeWhile _ _
  rw [List.drop_zero, hl, takeWhile_append_replicate (by decide)]

/-! ## Numbers -/

theorem le16_append (x : BitVec 16) : x.extractLsb' 8 8 ++ x.extractLsb' 0 8 = x := by
  rw [BitVec.extractLsb'_append_extractLsb'_eq_extractLsb' (by decide)]
  simp

theorem le32_append (x : BitVec 32) :
    x.extractLsb' 16 16 ++ (x.extractLsb' 8 8 ++ x.extractLsb' 0 8) = x := by
  rw [BitVec.extractLsb'_append_extractLsb'_eq_extractLsb' (by decide),
    BitVec.extractLsb'_append_extractLsb'_eq_extractLsb' (by decide)]
  simp

theorem u16_write (x : BitVec 16) (h : o + 1 < n) : (write o (le16 x) b).u16 o = x := by
  have ho : o < n := by omega
  simp [u16, get_write, le16, ho, h, le16_append]

theorem u16_write_of_disjoint (h : i + 1 < o ∨ o + l.length ≤ i) :
    (write o l b).u16 i = b.u16 i := by
  rw [u16, u16, get_write_of_notMem (by omega), get_write_of_notMem (by omega)]

theorem u32_write (x : BitVec 32) (h : o + 3 < n) : (write o (le32 x) b).u32 o = x := by
  have h0 : o < n := by omega
  have h1 : o + 1 < n := by omega
  have h2 : o + 2 < n := by omega
  simp [u32, u16, get_write, le32, le16, h, h0, h1, h2, Nat.add_assoc, le16_append]
  exact le32_append x

theorem u32_write_of_disjoint (h : i + 3 < o ∨ o + l.length ≤ i) :
    (write o l b).u32 i = b.u32 i := by
  rw [u32, u32, u16_write_of_disjoint (by omega), u16_write_of_disjoint (by omega)]

end Bytes
