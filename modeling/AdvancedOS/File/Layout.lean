import AdvancedOS.File.Buffers
import AdvancedOS.File.Streams
import AdvancedOS.Machine.Stack
import AdvancedOS.Str.Memory

/-!
# `file_list` in memory

The functions of `sysfile.h` again, on the bytes of `file_list` at an address. Nothing stops a store
here at the end of the member that it is for.

* `field`, `field_disjoint`: the members of the slots;
* `cstr_eq_iff`, `cstr_store`, `word_write`: strings and words in memory;
* `copied`, `getElem_copied`: the bytes that `memcpy` stores, which it may read where it has stored
  others;
* `strlen_memcpy`: **a string whose end is not copied to keeps its length**;
* `fileInitAt`, `doFwriteAt`, `doFputsAt`, `doFopenAt`, `doFcloseAt`: the functions;
* `fileInitAt_spec`: what `file_init` leaves;
* `put_fits`: **what a write stores where it fits**.
-/

namespace AdvancedOS

variable {m m' : Mem} {a x fl src dst len : Word} {s : CStr} {l : List Byte} {i j fp : FileIdx}
  {k n o o' : ℕ}

/-! ## Strings and words -/

theorem cstr_eq_iff (hs : s.length < 4096) :
    m.cstr a = s ↔ ∀ k (h : k < (s.toList ++ [0]).length),
      m (a + BitVec.ofNat 32 k) = (s.toList ++ [0])[k] := by
  have hlen : (s.toList ++ [0]).length ≤ 4096 := by
    rw [List.length_append, List.length_singleton]
    exact hs
  unfold Mem.cstr
  rw [CStr.ofList_eq_iff (by rwa [List.length_map, List.length_range]), List.prefix_iff_getElem?]
  refine forall₂_congr fun k h => ?_
  rw [List.getElem?_map, List.getElem?_range (h.trans_le hlen), Option.map_some, Option.some.injEq]

theorem cstr_store (hs : s.length < 4096) : (m.store a (s.toList ++ [0])).cstr a = s := by
  have hlen : (s.toList ++ [0]).length ≤ 2 ^ 32 := by
    rw [List.length_append, List.length_singleton]
    exact (Nat.succ_le_of_lt hs).trans (by decide)
  exact (cstr_eq_iff hs).mpr fun k h => store_of_lt hlen h

theorem cstr_congr (hs : (m.cstr a).length < n) (hn : n ≤ 4096) (h : ∀ x ∈ span a n, m' x = m x) :
    m'.cstr a = m.cstr a := by
  have hlt : (m.cstr a).length < 4096 := hs.trans_le hn
  refine (cstr_eq_iff hlt).mpr fun k hk => ?_
  rw [← (cstr_eq_iff hlt).mp rfl k hk]
  rw [List.length_append, List.length_singleton] at hk
  exact h _ (add_mem_span (hn.trans (by decide)) (hk.trans_le hs))

/-- The word at an address, low byte first. -/
def Mem.word (m : Mem) (a : Word) : Word := (m (a + 3) ++ m (a + 2)) ++ (m (a + 1) ++ m a)

theorem word_write (w : Word) : (m.write a w).word a = w := by
  have h1 : a + 1 ≠ a := by bv_omega
  have h2 : a + 2 ≠ a ∧ a + 2 ≠ a + 1 := by bv_omega
  have h3 : a + 3 ≠ a ∧ a + 3 ≠ a + 1 ∧ a + 3 ≠ a + 2 := by bv_omega
  simp only [Mem.word, Mem.write, h1, h2, h3, if_true, if_false]
  rw [BitVec.extractLsb'_append_extractLsb'_eq_extractLsb' (by decide),
    BitVec.extractLsb'_append_extractLsb'_eq_extractLsb' (by decide),
    BitVec.extractLsb'_append_extractLsb'_eq_extractLsb' (by decide)]
  exact BitVec.extractLsb'_eq_self

theorem word_congr (h : ∀ x ∈ span a 4, m' x = m x) : m'.word a = m.word a := by
  have hin : ∀ k < 4, a + BitVec.ofNat 32 k ∈ span a 4 := fun k hk => add_mem_span (by decide) hk
  have h0 : m' a = m a := h a (self_mem_span (by decide))
  have h1 : m' (a + 1) = m (a + 1) := h _ (hin 1 (by decide))
  have h2 : m' (a + 2) = m (a + 2) := h _ (hin 2 (by decide))
  have h3 : m' (a + 3) = m (a + 3) := h _ (hin 3 (by decide))
  rw [Mem.word, Mem.word, h0, h1, h2, h3]

/-! ## Copying -/

/-- The byte that `memcpy` stores at the offset `j`. -/
def stored (m : Mem) (dst src : Word) (n j : ℕ) : Byte := memcpy m dst src n (dst + BitVec.ofNat 32 j)

/-- The bytes that `memcpy` stores. -/
def copied (m : Mem) (dst src : Word) (n : ℕ) : List Byte := (List.range n).map (stored m dst src n)

theorem length_copied : (copied m dst src n).length = n := by
  rw [copied, List.length_map, List.length_range]

theorem memcpy_ne_zero (hsrc : ∀ j < n, m (src + BitVec.ofNat 32 j) ≠ 0) (hx : m x ≠ 0) :
    memcpy m dst src n x ≠ 0 := by
  induction n generalizing x with
  | zero => exact hx
  | succ n ih =>
    have ih : ∀ {x}, m x ≠ 0 → memcpy m dst src n x ≠ 0 :=
      fun hx => ih (fun j hj => hsrc j (hj.trans n.lt_succ_self)) hx
    rw [memcpy]
    by_cases hxn : x = dst + BitVec.ofNat 32 n
    · rw [hxn, Function.update_self]
      exact ih (hsrc n n.lt_succ_self)
    · rw [Function.update_of_ne hxn]
      exact ih hx

/-- `strlen`, which ends if there is a zero. -/
def Mem.strlen (m : Mem) (str : Word) : Option Word := strlenAt (2 ^ 32) m str

theorem strlen_of_stringAt (h : StringAt m a l) : m.strlen a = some (BitVec.ofNat 32 l.length) :=
  strlenAt_eq h h.length_lt

theorem exists_string (h : m.strlen a = some len) :
    ∃ l, StringAt m a l ∧ l.length = len.toNat := by
  obtain ⟨l, hl, hlen⟩ := strlenAt_string h
  have hlt := hl.length_lt
  refine ⟨l, hl, ?_⟩
  rw [hlen, BitVec.toNat_ofNat, Nat.mod_eq_of_lt hlt]

/-- **A string whose terminating zero is not copied to keeps its length.** -/
theorem strlen_memcpy (h : m.strlen src = some len)
    (hz : src + len ∉ span dst len.toNat) : (memcpy m dst src len.toNat).strlen src = some len := by
  obtain ⟨l, hl, hlen⟩ := exists_string h
  have hlt := len.isLt
  obtain ⟨hnul, hall⟩ := stringAt_iff.mp hl
  have hsrc : ∀ j < l.length, m (src + BitVec.ofNat 32 j) ≠ 0 := fun j hj h0 => by
    rw [hl.bytes j hj] at h0
    exact hnul (h0 ▸ List.getElem_mem hj)
  obtain ⟨l', hl'⟩ : ∃ l', l' = (List.range l.length).map fun j =>
    memcpy m dst src len.toNat (src + BitVec.ofNat 32 j) := ⟨_, rfl⟩
  have hlen' : l'.length = l.length := by rw [hl', List.length_map, List.length_range]
  have hstr : StringAt (memcpy m dst src len.toNat) src l' := by
    refine stringAt_iff.mpr ⟨fun h0 => ?_, fun k hk => ?_⟩
    · rw [hl'] at h0
      obtain ⟨j, hj, h0⟩ := List.mem_map.mp h0
      rw [List.mem_range] at hj
      exact memcpy_ne_zero (fun i hi => hsrc i (hlen.symm ▸ hi)) (hsrc j hj) h0
    · rw [List.length_append, List.length_singleton, hlen'] at hk
      rcases Nat.lt_succ_iff_lt_or_eq.mp hk with hk | rfl
      · rw [List.getElem_append_left (hlen'.symm ▸ hk)]
        simp only [hl', List.getElem_map, List.getElem_range]
      · have hend : BitVec.ofNat 32 l.length = len := by
          rw [hlen, BitVec.ofNat_toNat, BitVec.setWidth_eq]
        have h0 := hall l.length (by rw [List.length_append]; exact Nat.lt_succ_self _)
        rw [List.getElem_append_right le_rfl] at h0
        rw [List.getElem_append_right hlen'.le, hend, memcpy_of_le (not_lt.mp hz), ← hend, h0]
        simp only [List.getElem_singleton]
  rw [strlen_of_stringAt hstr, hlen', hlen, BitVec.ofNat_toNat, BitVec.setWidth_eq]

/-! ## The members of the slots -/

/-- The address of what is at the offset `o` in the slot `i`. -/
def field (fl : Word) (i : FileIdx) (o : ℕ) : Word := fl + BitVec.ofNat 32 (i * FILE_SIZE + o)

/-- The bytes of `file_list`. -/
def fileBytes (fl : Word) : Set Word := span fl (MAX_FILE_NUM * FILE_SIZE)

/-- The address of `file_list[i].mode`. -/
def modeAddr (fl : Word) (i : FileIdx) : Word := field fl i 32

/-- The address of `file_list[i].pos`. -/
def posAddr (fl : Word) (i : FileIdx) : Word := field fl i 1060

theorem mem_field (ho : o + n ≤ FILE_SIZE) : x ∈ span (field fl i o) n ↔
    i * FILE_SIZE + o ≤ (x - fl).toNat ∧ (x - fl).toNat < i * FILE_SIZE + o + n := by
  have hi : (i : ℕ) < 10 := i.isLt
  have hsize : FILE_SIZE = 1076 := rfl
  apply mem_span_add_iff
  rw [hsize] at ho ⊢
  omega

theorem field_subset (ho : o + n ≤ FILE_SIZE) : span (field fl i o) n ⊆ fileBytes fl := by
  have hi : (i : ℕ) < 10 := i.isLt
  have hsize : FILE_SIZE = 1076 := rfl
  have hnum : MAX_FILE_NUM = 10 := rfl
  intro x hx
  rw [mem_field ho, hsize] at hx
  rw [hsize] at ho
  rw [fileBytes, mem_span, hsize, hnum]
  omega

theorem field_disjoint (ho : o + n ≤ FILE_SIZE) (ho' : o' + k ≤ FILE_SIZE)
    (h : i ≠ j ∨ o + n ≤ o' ∨ o' + k ≤ o) (hx : x ∈ span (field fl i o) n) :
    x ∉ span (field fl j o') k := by
  have hsize : FILE_SIZE = 1076 := rfl
  rw [mem_field ho, hsize] at hx
  rw [mem_field ho', hsize]
  rw [hsize] at ho ho'
  rcases h with h | h
  · have hne : (i : ℕ) ≠ j := fun he => h (Fin.ext he)
    omega
  · by_cases he : (i : ℕ) = j <;> omega

/-- `file_list[i].mode`. -/
def modeOf (fl : Word) (m : Mem) (i : FileIdx) : CStr := m.cstr (modeAddr fl i)

/-- `file_list[i].pos`. -/
def posOf (fl : Word) (m : Mem) (i : FileIdx) : Word := m.word (posAddr fl i)

theorem modeOf_congr (hlen : (modeOf fl m i).length < 4)
    (h : ∀ x ∈ span (modeAddr fl i) 4, m' x = m x) : modeOf fl m' i = modeOf fl m i :=
  cstr_congr hlen (by decide) h

theorem posOf_congr (h : ∀ x ∈ span (posAddr fl i) 4, m' x = m x) : posOf fl m' i = posOf fl m i :=
  word_congr h

/-! ## The functions -/

/-- `strcpy`. -/
def Mem.strcpy (m : Mem) (dst : Word) (s : CStr) : Mem := m.store dst (s.toList ++ [0])

/-- What `file_init` does to a slot. -/
def initSlot (fl : Word) (m : Mem) (i : FileIdx) : Mem :=
  let m := m.store (field fl i 0) (List.replicate 32 0)
  let m := m.store (fileBuffer fl i) (List.replicate 1024 0)
  let m := m.strcpy (modeAddr fl i) unused
  let m := m.write (posAddr fl i) (fileBuffer fl i)
  let m := m.write (field fl i 1064) 0
  let m := m.write (field fl i 1068) 0
  m.write (field fl i 1072) 0

/-- `file_init`. -/
def fileInitAt (fl : Word) (m : Mem) : Mem := (List.finRange MAX_FILE_NUM).foldl (initSlot fl) m

/-- `fp->pos = fp->pos + n`. -/
def advance (fl : Word) (fp : FileIdx) (n : Word) (m : Mem) : Mem :=
  m.write (posAddr fl fp) (posOf fl m fp + n)

/-- `do_fwrite`: what is returned, and the memory. -/
def doFwriteAt (fl buf size count : Word) (fp : FileIdx) (m : Mem) : Word × Mem :=
  if modeOf fl m fp ≠ modeW then (0, m)
  else
    let numBytes := size * count
    (count, advance fl fp numBytes (memcpy m (posOf fl m fp) buf numBytes.toNat))

/-- `do_fputs`, if it returns. The length of the string is taken again after the copy. -/
def doFputsAt (fl str : Word) (fp : FileIdx) (m : Mem) : Option (Word × Mem) :=
  if modeOf fl m fp ≠ modeW then some (0, m)
  else do
    let n ← m.strlen str
    let m := memcpy m (posOf fl m fp) str n.toNat
    let n ← m.strlen str
    return (1, advance fl fp n m)

/-- The slot that `do_fopen` takes. -/
def unusedAt (fl : Word) (m : Mem) : Option FileIdx :=
  (List.finRange MAX_FILE_NUM).find? fun i => modeOf fl m i = unused

/-- Change the memory. -/
def changeMem (f : Mem → Mem) : FsKern Unit := modify fun s => s.setMem (f s.mem)

/-- `do_fopen`. -/
def doFopenAt (fl : Word) (pname mode : CStr) : FsKern (Option FileIdx) := do
  match unusedAt fl (← get).mem with
  | none => return none
  | some i =>
    changeMem (·.strcpy (field fl i 0) pname)
    match ← fat12FindEntry pname with
    | none =>
      if mode = modeW then
        changeMem (·.strcpy (modeAddr fl i) mode)
        return some i
      else if mode = modeR then
        return none
      else throw (.fault .null)
    | some p =>
      let fe := (← get).entryAt p
      changeMem (·.write (field fl i 1064) fe.fileLength)
      changeMem (·.write (field fl i 1068) (fe.startCluster.setWidth 32))
      changeMem (·.write (field fl i 1072) (fe.startCluster.setWidth 32))
      changeMem (·.strcpy (modeAddr fl i) mode)
      let _ ← fat12ReadClustersTo (fileBuffer fl i) (fe.startCluster.setWidth 32)
      return some i

/-- `do_fclose`. -/
def doFcloseAt (fl : Word) (fp : FileIdx) : FsKern Unit := do
  let m := (← get).mem
  if modeOf fl m fp = modeW then
    fat12CreateFile ((List.range 1024).map fun j => m (fileBuffer fl fp + BitVec.ofNat 32 j))
      (posOf fl m fp - fileBuffer fl fp).toInt (m.cstr (field fl fp 0))
  changeMem (·.strcpy (modeAddr fl fp) unused)
  Fs.enable

/-! ## `file_init` -/

theorem write_field {w : Word} (ho : o + 4 ≤ FILE_SIZE) (ho' : o' + n ≤ FILE_SIZE)
    (h : i ≠ j ∨ o + 4 ≤ o' ∨ o' + n ≤ o) (hx : x ∈ span (field fl j o') n) :
    m.write (field fl i o) w x = m x :=
  write_of_notMem fun hx' => field_disjoint ho ho' h hx' hx

theorem modeOf_initSlot : modeOf fl (initSlot fl m i) i = unused := by
  rw [initSlot]
  generalize (m.store (field fl i 0) (List.replicate 32 0)).store (fileBuffer fl i)
    (List.replicate 1024 0) = m₀
  have hmode : modeOf fl (m₀.strcpy (modeAddr fl i) unused) i = unused := cstr_store (by decide)
  refine (modeOf_congr (m := m₀.strcpy (modeAddr fl i) unused) ?_ fun x hx => ?_).trans hmode
  · rw [hmode]
    decide
  · rw [write_field (by decide) (by decide) (.inr (.inr (by decide))) hx,
      write_field (by decide) (by decide) (.inr (.inr (by decide))) hx,
      write_field (by decide) (by decide) (.inr (.inr (by decide))) hx,
      posAddr, write_field (by decide) (by decide) (.inr (.inr (by decide))) hx]

theorem posOf_initSlot : posOf fl (initSlot fl m i) i = fileBuffer fl i := by
  rw [initSlot]
  generalize ((m.store (field fl i 0) (List.replicate 32 0)).store (fileBuffer fl i)
    (List.replicate 1024 0)).strcpy (modeAddr fl i) unused = m₀
  refine (posOf_congr (m := m₀.write (posAddr fl i) (fileBuffer fl i)) fun x hx => ?_).trans
    (word_write _)
  rw [write_field (by decide) (by decide) (.inr (.inr (by decide))) hx,
    write_field (by decide) (by decide) (.inr (.inr (by decide))) hx,
    write_field (by decide) (by decide) (.inr (.inr (by decide))) hx]

theorem initSlot_of_notMem (hx : x ∉ span (field fl i 0) FILE_SIZE) : initSlot fl m i x = m x := by
  have hout : ∀ {o n}, o + n ≤ FILE_SIZE → x ∉ span (field fl i o) n := fun {o n} h hx' => hx (by
    rw [mem_field h] at hx'
    rw [mem_field (by decide)]
    omega)
  rw [initSlot, write_of_notMem (hout (by decide)), write_of_notMem (hout (by decide)),
    write_of_notMem (hout (by decide)), posAddr, write_of_notMem (hout (by decide)), Mem.strcpy,
    modeAddr, store_of_notMem (hout (by decide)), store_of_notMem,
    store_of_notMem (hout (by rw [List.length_replicate]; decide))]
  exact hout (o := 36) (by rw [List.length_replicate]; decide)

/-- **`file_init`** frees every slot and puts its position at the start of the buffer. -/
theorem fileInitAt_spec (i : FileIdx) : modeOf fl (fileInitAt fl m) i = unused ∧
    posOf fl (fileInitAt fl m) i = fileBuffer fl i := by
  have key : ∀ (is : List FileIdx) (m : Mem), is.Nodup → i ∈ is →
      modeOf fl (is.foldl (initSlot fl) m) i = unused ∧
        posOf fl (is.foldl (initSlot fl) m) i = fileBuffer fl i := by
    intro is
    induction is with
    | nil => exact fun _ _ h => (List.not_mem_nil h).elim
    | cons j is ih =>
      intro m hn hi
      rw [List.nodup_cons] at hn
      rw [List.foldl_cons]
      by_cases hj : i ∈ is
      · exact ih _ hn.2 hj
      · obtain rfl : i = j := (List.mem_cons.mp hi).resolve_right hj
        -- the slots after this one are others
        have hrest : ∀ (is : List FileIdx) (m : Mem), i ∉ is → ∀ x ∈ span (field fl i 0) FILE_SIZE,
            is.foldl (initSlot fl) m x = m x := by
          intro is
          induction is with
          | nil => exact fun _ _ _ _ => rfl
          | cons j is ih =>
            intro m hi x hx
            rw [List.mem_cons, not_or] at hi
            rw [List.foldl_cons, ih _ hi.2 x hx]
            exact initSlot_of_notMem (field_disjoint (by decide) (by decide) (.inl hi.1) hx)
        have hsub : ∀ {o n}, o + n ≤ FILE_SIZE → ∀ x ∈ span (field fl i o) n,
            is.foldl (initSlot fl) (initSlot fl m i) x = initSlot fl m i x := by
          intro o n ho x hx
          apply hrest _ _ hj
          rw [mem_field ho] at hx
          rw [mem_field (by decide)]
          omega
        constructor
        · rw [modeOf_congr (by rw [modeOf_initSlot]; decide) (hsub (by decide)), modeOf_initSlot]
        · rw [posOf_congr (hsub (by decide)), posOf_initSlot]
  exact key _ m (List.nodup_finRange _) (List.mem_finRange i)

/-! ## Writes that fit -/

/-- What a write of `l` at the position `k` stores, which moves the position by `d`. -/
structure Put (fl : Word) (fp : FileIdx) (k : ℕ) (l : List Byte) (d : ℕ) (m m' : Mem) : Prop where
  pos : posOf fl m' fp = fileBuffer fl fp + BitVec.ofNat 32 (k + d)
  bytes : ∀ j (h : j < l.length), m' (fileBuffer fl fp + BitVec.ofNat 32 (k + j)) = l[j]
  frame : ∀ x, x ∉ span (fileBuffer fl fp + BitVec.ofNat 32 k) l.length →
    x ∉ span (posAddr fl fp) 4 → m' x = m x

theorem part_subset (h : k + n ≤ 1024) :
    span (fileBuffer fl fp + BitVec.ofNat 32 k) n ⊆ span (fileBuffer fl fp) 1024 :=
  (span_add_subset k).trans (span_subset h)

theorem buffer_disjoint_pos (hx : x ∈ span (fileBuffer fl i) 1024) : x ∉ span (posAddr fl j) 4 :=
  field_disjoint (o := 36) (by decide) (by decide) (.inr (.inl (by decide))) hx

theorem put_fits (src : Word) (hpos : posOf fl m fp = fileBuffer fl fp + BitVec.ofNat 32 k) (h : k + n ≤ 1024)
    (d : ℕ) : Put fl fp k (copied m (posOf fl m fp) src n) d m
      (advance fl fp (BitVec.ofNat 32 d) (memcpy m (posOf fl m fp) src n)) := by
  have hlen : n ≤ 2 ^ 32 := (Nat.le_add_left _ _).trans (h.trans (by decide))
  have hin : ∀ x ∈ span (posOf fl m fp) n, x ∈ span (fileBuffer fl fp) 1024 := fun x hx => by
    rw [hpos] at hx
    exact part_subset h hx
  -- the copy does not reach the position
  have hpos' : posOf fl (memcpy m (posOf fl m fp) src n) fp = posOf fl m fp :=
    posOf_congr fun x hx => memcpy_of_le (not_lt.mp fun hx' => buffer_disjoint_pos (hin x hx') hx)
  refine ⟨?_, fun j hj => ?_, fun x hx hx' => ?_⟩
  · rw [advance, hpos', hpos, add_ofNat_add]
    exact word_write _
  · have hjn : j < n := by rwa [length_copied] at hj
    have haddr : fileBuffer fl fp + BitVec.ofNat 32 (k + j) =
        posOf fl m fp + BitVec.ofNat 32 j := by
      rw [hpos, add_ofNat_add]
    rw [haddr, advance, write_of_notMem (buffer_disjoint_pos (hin _ (add_mem_span hlen hjn)))]
    simp only [copied, stored, List.getElem_map, List.getElem_range]
  · rw [length_copied, ← hpos] at hx
    rw [advance, write_of_notMem hx']
    exact memcpy_of_le (not_lt.mp hx)

end AdvancedOS
