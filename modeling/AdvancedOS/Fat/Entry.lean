import AdvancedOS.Fat.Code

/-!
# What `fat12_create_file` writes into a directory entry

* `enterFile_get_name`, `enterFile_get_extension`: the name fields are padded with spaces;
* `attributeByte`, `enterFile_attribute`: a long extension or name overruns the attributes;
* `shortName`, `construct_enterFile`: **the name that the entry is listed under**;
* `construct_head`: what the name of an entry in use, and of one that is not, starts with.
-/

namespace AdvancedOS

variable {e f : FileEntry} {t x : CStr} {cstart : ℕ} {size : ℤ} {i k n : ℕ} {l d p : List Byte}

/-! ## The bytes of the entry -/

/-- The byte that the two strings leave in the attributes. -/
def attributeByte (e : FileEntry) (t x : CStr) : Byte :=
  ((x.toList ++ [0])[3]?).getD (((t.toList ++ [0])[11]?).getD (e.get 11))

theorem get_padded {o : ℕ} (s : CStr) (hs : o + s.length < 32) (hi : i < 32) :
    ((e.write o (s.toList ++ [0])).fill (o + ((e.write o (s.toList ++ [0])).cstr o).length) k
      0x20).get i =
      if o ≤ i ∧ i < k then s.toList[i - o]?.getD 0x20
      else (e.write o (s.toList ++ [0])).get i := by
  rw [Bytes.cstr_write s hs, Bytes.get_fill hi, Bytes.get_write]
  have hl : s.length = s.toList.length := rfl
  by_cases hr : o ≤ i ∧ i < k
  · rw [if_pos hr]
    rcases Nat.lt_or_ge i (o + s.length) with h | h
    · have hlt : i - o < s.toList.length := by omega
      rw [if_neg (by omega), if_pos ⟨hr.1, hi⟩, List.getElem?_append_left hlt,
        List.getElem?_eq_getElem hlt, Option.getD_some, Option.getD_some]
    · rw [if_pos ⟨h, hr.2⟩, List.getElem?_eq_none (by omega), Option.getD_none]
  · rw [if_neg hr, if_neg (by omega)]

theorem enterFile_get (ht : t.length < 20) (hx : x.length < 24) (hi : i < 11) :
    (enterFile e t x cstart size).get i =
      if i < 8 then t.toList[i]?.getD 0x20 else x.toList[i - 8]?.getD 0x20 := by
  unfold enterFile
  simp only
  rw [Bytes.get_write_of_notMem (by omega), Bytes.get_write_of_notMem (by omega),
    Bytes.get_write_of_notMem (by omega), Bytes.get_write_of_notMem (by omega),
    Bytes.get_write_of_notMem (by omega), get_padded x (by omega) (by omega)]
  have hname := get_padded (e := e) (o := 0) (k := 8) (i := i) t (by omega) (by omega)
  rw [Nat.zero_add] at hname
  by_cases h8 : i < 8
  · rw [if_neg (by omega), if_pos h8, Bytes.get_write_of_notMem (by omega), hname,
      if_pos ⟨Nat.zero_le _, h8⟩, Nat.sub_zero]
  · rw [if_pos ⟨by omega, hi⟩, if_neg h8]

theorem enterFile_attribute (ht : t.length < 20) (hx : x.length < 24) :
    (enterFile e t x cstart size).get 11 = attributeByte e t x ||| 0x20 := by
  have hname := get_padded (e := e) (o := 0) (k := 8) (i := 11) t (by omega) (by omega)
  rw [Nat.zero_add] at hname
  unfold enterFile
  simp only
  rw [Bytes.get_write_of_notMem (by omega), Bytes.get_write_of_notMem (by omega),
    Bytes.get_write_of_notMem (by omega), Bytes.get_write_of_notMem (by omega), Bytes.get_write,
    if_pos (by omega), Nat.sub_self, List.getElem?_cons_zero, Option.getD_some,
    get_padded x (by omega) (by omega), if_neg (by omega), Bytes.get_write, if_pos (by omega), hname,
    if_neg (by omega), Bytes.get_write, if_pos (by omega)]
  rfl

theorem enterFile_startCluster :
    (enterFile e t x cstart size).startCluster = BitVec.ofNat 16 cstart := by
  unfold enterFile FileEntry.startCluster
  simp only
  rw [Bytes.u16_write_of_disjoint (by simp [Bytes.le16]),
    Bytes.u16_write_of_disjoint (by simp [Bytes.le16]), Bytes.u16_write_of_disjoint (by omega),
    Bytes.u16_write _ (by omega)]

theorem enterFile_fileLength :
    (enterFile e t x cstart size).fileLength = BitVec.ofInt 32 size := by
  unfold enterFile FileEntry.fileLength
  simp only
  rw [Bytes.u32_write_of_disjoint (by simp [Bytes.le16]),
    Bytes.u32_write_of_disjoint (by simp [Bytes.le16]), Bytes.u32_write _ (by omega)]

/-! ## The name -/

/-- The bytes of `l` up to the first space. -/
def upToSpace (l : List Byte) : List Byte := l.takeWhile (· ≠ 0x20)

/-- The name of an entry with these two fields. -/
def joinName (name extension : List Byte) : List Byte :=
  upToSpace name ++ if upToSpace extension = [] then [] else 0x2E :: upToSpace extension

/-- The name that a file is listed under whose name is given in two parts. -/
def shortName (t x : CStr) : CStr :=
  tolower (.ofList (joinName (t.toList.take 8) (x.toList.take 3)))

theorem nameLoop_eq (n : ℕ) (l : List Byte) : nameLoop f n l.length (Bytes.ofList l) =
    Bytes.ofList (l ++ upToSpace ((List.range' l.length n).map f.get)) := by
  induction n generalizing l with
  | zero => rw [nameLoop, List.range'_zero, List.map_nil, upToSpace, List.takeWhile_nil,
      List.append_nil]
  | succ n ih =>
    rw [nameLoop, List.range'_succ, List.map_cons, upToSpace]
    split_ifs with h
    · rw [Bytes.write_ofList, Bytes.ofList_append_zero, List.takeWhile_cons_of_neg (by simp [h]),
        List.append_nil]
    · have hi := ih (l ++ [f.get l.length])
      rw [List.length_append, List.length_singleton] at hi
      rw [Bytes.write_ofList, hi, List.takeWhile_cons_of_pos (by simpa using h), upToSpace,
        List.append_assoc, List.singleton_append]

theorem extensionLoop_eq (n : ℕ) (l d : List Byte) :
    extensionLoop f l.length n d.length (Bytes.ofList (l ++ d)) =
      Bytes.ofList (l ++ d ++ upToSpace ((List.range' (8 + d.length) n).map f.get)) := by
  induction n generalizing d with
  | zero => rw [extensionLoop, List.range'_zero, List.map_nil, upToSpace, List.takeWhile_nil,
      List.append_nil]
  | succ n ih =>
    have hlen : d.length + l.length = (l ++ d).length := by rw [List.length_append, Nat.add_comm]
    rw [extensionLoop, List.range'_succ, List.map_cons, upToSpace, hlen]
    split_ifs with h
    · rw [Bytes.write_ofList, Bytes.ofList_append_zero, List.takeWhile_cons_of_neg (by simp [h]),
        List.append_nil]
    · have hi := ih (d ++ [f.get (8 + d.length)])
      rw [List.length_append, List.length_singleton, ← List.append_assoc] at hi
      rw [Bytes.write_ofList, hi, List.takeWhile_cons_of_pos (by simpa using h), upToSpace,
        List.append_assoc, List.singleton_append, Nat.add_assoc]

/-- The bytes of the name. -/
def FileEntry.name (f : FileEntry) : List Byte := (List.range' 0 8).map f.get

/-- The bytes of the extension. -/
def FileEntry.extension (f : FileEntry) : List Byte := (List.range' 8 3).map f.get

theorem nameLoop_zero : nameLoop f 8 0 (fun _ => 0) = Bytes.ofList (upToSpace f.name) :=
  nameLoop_eq 8 []

theorem upToSpace_length (l : List Byte) : (upToSpace l).length ≤ l.length :=
  (List.takeWhile_prefix _).length_le

theorem name_length : (upToSpace f.name).length ≤ 8 := upToSpace_length _

theorem extension_length : (upToSpace f.extension).length ≤ 3 := upToSpace_length _

theorem extension_eq_nil : upToSpace f.extension = [] ↔ f.get 8 = 0x20 := by
  change List.takeWhile _ (f.get 8 :: _) = [] ↔ _
  simp

/-- The last byte of the buffer is zero already. -/
theorem write_last (h : l.length ≤ k) :
    Bytes.write k [0] (Bytes.ofList l : Bytes n) = Bytes.ofList l := by
  funext i
  simp only [Bytes.write, Bytes.ofList]
  split_ifs with hi
  · rw [List.getElem?_eq_none (h.trans hi), Option.getD_none]
    cases (i : ℕ) - k <;> rfl
  · rfl

theorem construct_eq (hf : ∀ i < 11, f.get i ≠ 0) :
    fat12ConstructFileName f = tolower (.ofList (joinName f.name f.extension)) := by
  have hname : 0 ∉ upToSpace f.name := by
    intro h
    obtain ⟨i, hi, h0⟩ := List.mem_map.mp (List.takeWhile_subset _ h)
    have := List.mem_range'_1.mp hi
    exact hf i (by omega) h0
  have hlen : (CStr.ofList (upToSpace f.name)).length = (upToSpace f.name).length :=
    congrArg List.length (CStr.ofList_of_notMem hname)
  have hdot : 0 ∉ upToSpace f.name ++ [0x2E] := by
    intro h
    rcases List.mem_append.mp h with h | h
    · exact hname h
    · exact absurd (List.mem_singleton.mp h) (by decide)
  have hlen' : (CStr.ofList (upToSpace f.name ++ [0x2E])).length =
      (upToSpace f.name ++ [0x2E]).length := congrArg List.length (CStr.ofList_of_notMem hdot)
  have h8 := name_length (f := f)
  have h3 := extension_length (f := f)
  have hdlen : (upToSpace f.name ++ [0x2E]).length ≤ 13 := by
    rw [List.length_append, List.length_singleton]
    omega
  unfold fat12ConstructFileName joinName
  simp only [nameLoop_zero]
  rw [Bytes.cstr_ofList (by omega), hlen, Bytes.write_ofList,
    show upToSpace f.name ++ [0x2E, 0] = upToSpace f.name ++ [0x2E] ++ [0] by simp,
    Bytes.ofList_append_zero, Bytes.cstr_ofList hdlen, hlen']
  have hext : extensionLoop f (upToSpace f.name ++ [0x2E]).length 3 0
      (Bytes.ofList (upToSpace f.name ++ [0x2E])) =
        Bytes.ofList (upToSpace f.name ++ [0x2E] ++ upToSpace f.extension) := by
    have h := extensionLoop_eq (f := f) 3 (upToSpace f.name ++ [0x2E]) []
    rw [List.append_nil] at h
    exact h
  by_cases hx : f.get 8 = 0x20
  · rw [if_neg (not_not.mpr hx), if_pos (extension_eq_nil.mpr hx), List.append_nil,
      write_last (by omega), Bytes.cstr_ofList (by omega)]
  · rw [if_pos hx, if_neg (mt extension_eq_nil.mp hx), hext]
    have hM : (upToSpace f.name ++ [0x2E] ++ upToSpace f.extension).length ≤ 12 := by
      simp only [List.length_append, List.length_singleton]
      omega
    rw [write_last hM, Bytes.cstr_ofList (by omega), List.append_assoc, List.singleton_append]

theorem upToSpace_padded {s : List Byte} {l : List Byte} {m : ℕ} (hl : l.length = m)
    (h : ∀ j < m, l[j]? = some (s[j]?.getD 0x20)) : upToSpace l = upToSpace (s.take m) := by
  have : l = s.take m ++ List.replicate (m - s.length) 0x20 := by
    refine List.ext_getElem? fun j => ?_
    rcases Nat.lt_or_ge j m with hj | hj
    · rw [h j hj]
      rcases Nat.lt_or_ge j s.length with hs | hs
      · rw [List.getElem?_append_left (by rw [List.length_take]; omega), List.getElem?_take_of_lt hj,
          List.getElem?_eq_getElem hs, Option.getD_some]
      · rw [List.getElem?_append_right (by rw [List.length_take]; omega), List.getElem?_replicate,
          if_pos (by rw [List.length_take]; omega), List.getElem?_eq_none hs, Option.getD_none]
    · rw [List.getElem?_eq_none (hl ▸ hj), List.getElem?_eq_none]
      rw [List.length_append, List.length_take, List.length_replicate]
      omega
  rw [upToSpace, this, Bytes.takeWhile_append_replicate (by decide), upToSpace]

/-- **The name that a file is listed under after it has been entered.** -/
theorem construct_enterFile (ht : t.length < 20) (hx : x.length < 24) :
    fat12ConstructFileName (enterFile e t x cstart size) = shortName t x := by
  have hget := fun i (hi : i < 11) => @enterFile_get e t x cstart size i ht hx hi
  have hne : ∀ (s : CStr) (j : ℕ), s.toList[j]?.getD 0x20 ≠ 0 := by
    intro s j h
    cases hj : s.toList[j]? with
    | none =>
      rw [hj] at h
      exact absurd h (by decide)
    | some b =>
      rw [hj] at h
      exact s.noNul (h ▸ List.mem_of_getElem? hj)
  have hname : upToSpace (enterFile e t x cstart size).name = upToSpace (t.toList.take 8) := by
    refine upToSpace_padded rfl fun j hj => ?_
    simp only [FileEntry.name, List.getElem?_map, List.getElem?_range' hj, Option.map_some]
    rw [hget _ (by omega), if_pos (by omega)]
    simp
  have hext : upToSpace (enterFile e t x cstart size).extension = upToSpace (x.toList.take 3) := by
    refine upToSpace_padded rfl fun j hj => ?_
    simp only [FileEntry.extension, List.getElem?_map, List.getElem?_range' hj, Option.map_some]
    rw [hget _ (by omega), if_neg (by omega)]
    simp
  rw [construct_eq fun i hi => ?_, shortName, joinName, joinName, hname, hext]
  rw [hget i hi]
  split_ifs
  · exact hne t i
  · exact hne x (i - 8)

/-! ## How names start -/

theorem cstr_head {b : Bytes 13} (h : b.get 0 ≠ 0) : (b.cstr 0).toList.head? = some (b.get 0) := by
  have hl : (List.ofFn b).drop 0 = b.get 0 :: List.ofFn fun i : Fin 12 => b i.succ := by
    rw [List.drop_zero, List.ofFn_succ, Bytes.get_of_lt (by omega)]
    rfl
  change (List.takeWhile _ _).head? = _
  rw [hl, List.takeWhile_cons_of_pos (by simpa using h)]
  rfl

theorem cstr_nil {b : Bytes 13} (h : b.get 0 = 0) : (b.cstr 0).toList = [] := by
  have hl : (List.ofFn b).drop 0 = b.get 0 :: List.ofFn fun i : Fin 12 => b i.succ := by
    rw [List.drop_zero, List.ofFn_succ, Bytes.get_of_lt (by omega)]
    rfl
  change List.takeWhile _ _ = _
  rw [hl, List.takeWhile_cons_of_neg (by simp [h])]

theorem extensionLoop_get {b : Bytes 13} (hi : i < k) (n j : ℕ) :
    (extensionLoop f k n j b).get i = b.get i := by
  induction n generalizing j b with
  | zero => rfl
  | succ n ih =>
    rw [extensionLoop]
    split_ifs
    · rw [Bytes.get_write_of_notMem (by omega)]
    · rw [ih, Bytes.get_write_of_notMem (by omega)]

/-- The buffer with the name, before it is made lower case. -/
def nameBuffer (f : FileEntry) : Bytes 13 :=
  let name := nameLoop f 8 0 fun _ => 0
  let name :=
    if f.get 8 ≠ 0x20 then
      let name := name.write (name.cstr 0).length [0x2E, 0]
      extensionLoop f (name.cstr 0).length 3 0 name
    else name
  name.write 12 [0]

theorem construct_toList :
    (fat12ConstructFileName f).toList = ((nameBuffer f).cstr 0).toList.map lowerByte := by
  unfold fat12ConstructFileName nameBuffer
  rfl

theorem nameLoop_get (h : f.get 0 ≠ 0x20) : (nameLoop f 8 0 fun _ => 0).get 0 = f.get 0 := by
  have hcons : upToSpace f.name = f.get 0 :: upToSpace ((List.range' 1 7).map f.get) :=
    List.takeWhile_cons_of_pos (by simpa using h)
  rw [nameLoop_zero, hcons, Bytes.get_of_lt (by omega)]
  rfl

theorem length_pos_of_get {b : Bytes 13} (h : b.get 0 ≠ 0) : 0 < (b.cstr 0).length := by
  have hh := cstr_head h
  rcases hl : (b.cstr 0).toList with _ | ⟨a, l⟩
  · rw [hl] at hh
    cases hh
  · rw [CStr.length, hl]
    exact Nat.succ_pos _

/-- The name of an entry that is in use or deleted starts with its first byte. -/
theorem construct_head (h0 : f.get 0 ≠ 0) (h : f.get 0 ≠ 0x20) :
    (fat12ConstructFileName f).toList.head? = some (lowerByte (f.get 0)) := by
  have hloop := nameLoop_get h
  have hpos := length_pos_of_get (hloop ▸ h0 : (nameLoop f 8 0 fun _ => 0).get 0 ≠ 0)
  have hget : (nameBuffer f).get 0 = f.get 0 := by
    unfold nameBuffer
    rw [Bytes.get_write_of_notMem (by omega)]
    split_ifs with hx
    · -- the dot and the extension come after the name
      simp only
      have hdot : (Bytes.write ((nameLoop f 8 0 fun _ => 0).cstr 0).length [0x2E, 0]
          (nameLoop f 8 0 fun _ => 0)).get 0 = f.get 0 := by
        rw [Bytes.get_write_of_notMem (by omega), hloop]
      rw [extensionLoop_get (length_pos_of_get (hdot ▸ h0)), hdot]
    · exact hloop
  rw [construct_toList, List.head?_map, cstr_head (hget ▸ h0), hget, Option.map_some]

theorem construct_of_empty (hloop : (nameLoop f 8 0 fun _ => 0).get 0 = 0) :
    (fat12ConstructFileName f).toList = [] ∨
      (fat12ConstructFileName f).toList.head? = some 0x2E := by
  have hlen : ((nameLoop f 8 0 fun _ => 0).cstr 0).length = 0 :=
    congrArg List.length (cstr_nil hloop)
  rw [construct_toList, List.map_eq_nil_iff, List.head?_map]
  by_cases hx : f.get 8 = 0x20
  · left
    apply cstr_nil
    unfold nameBuffer
    rw [Bytes.get_write_of_notMem (by omega), if_neg (not_not.mpr hx), hloop]
  · right
    have hdot : (Bytes.write 0 [0x2E, 0] (nameLoop f 8 0 fun _ => 0)).get 0 = 0x2E := by
      rw [Bytes.get_write, if_pos (by omega)]
      rfl
    have hget : (nameBuffer f).get 0 = 0x2E := by
      unfold nameBuffer
      simp only [ne_eq, hx, not_false_eq_true, if_true, hlen]
      rw [Bytes.get_write_of_notMem (by omega),
        extensionLoop_get (length_pos_of_get (by rw [hdot]; decide)), hdot]
    rw [cstr_head (by rw [hget]; decide), hget]
    rfl

theorem construct_free (h0 : f.get 0 = 0) : (fat12ConstructFileName f).toList = [] ∨
    (fat12ConstructFileName f).toList.head? = some 0x2E := by
  apply construct_of_empty
  rw [nameLoop_get (by rw [h0]; decide), h0]

theorem construct_space (h : f.get 0 = 0x20) : (fat12ConstructFileName f).toList = [] ∨
    (fat12ConstructFileName f).toList.head? = some 0x2E := by
  apply construct_of_empty
  rw [nameLoop, if_pos h, Bytes.get_write, if_pos (by omega)]
  rfl

/-- Only the name of a deleted entry starts with the mark. -/
theorem construct_mark : (fat12ConstructFileName f).toList.head? = some 0xE5 ↔ f.get 0 = 0xE5 := by
  have hlower : ∀ b : Byte, lowerByte b = 0xE5 ↔ b = 0xE5 := by decide
  by_cases hempty : f.get 0 = 0 ∨ f.get 0 = 0x20
  · have hne : f.get 0 ≠ 0xE5 := by
      rcases hempty with h | h
      · rw [h]
        decide
      · rw [h]
        decide
    refine iff_of_false (fun hhead => ?_) hne
    rcases hempty.elim construct_free construct_space with hn | hn
    · rw [hn] at hhead
      cases hhead
    · exact absurd (hn.symm.trans hhead) (by decide)
  · obtain ⟨h0, hs⟩ := not_or.mp hempty
    rw [construct_head h0 hs, Option.some.injEq, hlower]

/-! ## Searching for a name -/

theorem construct_of_findRoot {rootDir : RootIdx → FileEntry} {i : RootIdx} {name : CStr}
    (h : findRoot rootDir name = some i) : fat12ConstructFileName (rootDir i) = name := by
  simpa using List.find?_some h

theorem length_of_findRoot {rootDir : RootIdx → FileEntry} {i : RootIdx} {name : CStr}
    (h : findRoot rootDir name = some i) : name.length ≤ 13 := by
  rw [← construct_of_findRoot h]
  unfold fat12ConstructFileName
  exact (List.length_map _).trans_le Bytes.length_cstr_le

theorem findRoot_iff {rootDir : RootIdx → FileEntry} {k : RootIdx} {name : CStr} :
    findRoot rootDir name = some k ↔ fat12ConstructFileName (rootDir k) = name ∧
      ∀ j < k, fat12ConstructFileName (rootDir j) ≠ name := by
  rw [findRoot, ← Fin.find?_eq_find?_finRange, Fin.find?_eq_some_iff]
  simp only [decide_eq_true_eq, decide_eq_false_iff_not]

theorem findRoot_eq_some {rootDir : RootIdx → FileEntry} {k : RootIdx} {name : CStr}
    (hk : fat12ConstructFileName (rootDir k) = name)
    (h : ∀ j < k, fat12ConstructFileName (rootDir j) ≠ name) : findRoot rootDir name = some k :=
  findRoot_iff.mpr ⟨hk, h⟩

theorem findRoot_zero {rootDir : RootIdx → FileEntry} {name : CStr}
    (h : fat12ConstructFileName (rootDir 0) = name) : findRoot rootDir name = some 0 :=
  findRoot_eq_some h fun j hj => (Fin.not_lt_zero j hj).elim

end AdvancedOS
