import AdvancedOS.Fat.NewFile
import AdvancedOS.Fat.Runs

/-!
# Names of eight and three characters

`fat12_create_file` fills the fields for the name with `strcpy`, whose terminating zero may lie in the
next field, and pads them.

* `enterName`: the part of `fat12_create_file` that stores a name;
* `enterName_get_behind`, `enterName_archive`: **nothing behind the attributes is written, and of the
  attributes the archive bit is set and the others are kept or cleared**;
* `name_codec`: **a name that is stored is read back in lower case.**
-/

namespace AdvancedOS

variable {e : FileEntry} {name t x : CStr} {i : ℕ} {size : ℤ} {s : Fs} {k : RootIdx}

/-- The name, the extension and the attributes, as `fat12_create_file` stores them. -/
def enterName (e : FileEntry) (tmpName ext : CStr) : FileEntry :=
  let e := e.write 0 (tmpName.toList ++ [0])
  let e := e.fill (e.cstr 0).length 8 0x20
  let e := e.write 8 (ext.toList ++ [0])
  let e := e.fill (8 + (e.cstr 8).length) 11 0x20
  e.write 11 [e.get 11 ||| 0x20]

/-- The other fields, as `fat12_create_file` stores them afterwards. -/
def enterFields (e : FileEntry) (cstart : ℕ) (size : ℤ) : FileEntry :=
  let e := e.write 26 (Bytes.le16 (BitVec.ofNat 16 cstart))
  let e := e.write 28 (Bytes.le32 (BitVec.ofInt 32 size))
  let e := e.write 24 (Bytes.le16 (BitVec.ofNat 16 (dateToInt 2019 6 23)))
  e.write 22 (Bytes.le16 (BitVec.ofNat 16 (timeToInt 0 0 0)))

theorem enterFile_eq (e : FileEntry) (t x : CStr) (cstart : ℕ) (size : ℤ) :
    enterFile e t x cstart size = enterFields (enterName e t x) cstart size := by
  unfold enterFile enterFields enterName
  rfl

/-! ## The bytes -/

theorem enterName_get_behind (ht : t.length ≤ 8) (hx : x.length ≤ 3) (hi : 12 ≤ i) (hi' : i < 32) :
    (enterName e t x).get i = e.get i := by
  have htlen : (t.toList ++ [0]).length = t.length + 1 := List.length_append
  have hxlen : (x.toList ++ [0]).length = x.length + 1 := List.length_append
  unfold enterName
  simp only
  rw [Bytes.get_write_of_notMem (.inr hi), Bytes.get_fill hi', if_neg (by omega),
    Bytes.get_write_of_notMem (by omega), Bytes.get_fill hi', if_neg (by omega),
    Bytes.get_write_of_notMem (by omega)]

/-- What the strings leave in the attributes: an extension of three characters clears them. -/
theorem attributeByte_eq (ht : t.length ≤ 8) (hx : x.length ≤ 3) :
    attributeByte e t x = if x.length = 3 then 0 else e.get 11 := by
  have hname : (t.toList ++ [0])[11]? = none := by
    rw [List.getElem?_eq_none]
    rw [List.length_append, List.length_singleton]
    exact (Nat.succ_le_succ ht).trans (by decide)
  rw [attributeByte, hname, Option.getD_none]
  split_ifs with h3
  · have hlen : 3 = x.toList.length := h3.symm
    rw [hlen, List.getElem?_append_right le_rfl, Nat.sub_self]
    rfl
  · have hnone : (x.toList ++ [0])[3]? = none := by
      rw [List.getElem?_eq_none]
      rw [List.length_append, List.length_singleton]
      exact Nat.lt_of_le_of_ne hx h3
    rw [hnone, Option.getD_none]

/-- **The archive bit is set, and the other bits are kept or cleared.** -/
theorem enterName_archive (ht : t.length ≤ 8) (hx : x.length ≤ 3) (cstart : ℕ) (size : ℤ) :
    (enterFile e t x cstart size).get 11 = e.get 11 ||| 0x20 ∨
      (enterFile e t x cstart size).get 11 = 0x20 := by
  rw [enterFile_attribute (by omega) (by omega), attributeByte_eq ht hx]
  split_ifs
  · exact .inr rfl
  · exact .inl rfl

/-! ## The name -/

theorem DottedName.length_lt (h : DottedName name) : (tolower name).length < 13 := by
  obtain ⟨x, hx, -, h3, -⟩ := h.extension
  have h8 := h.le_eight
  have hlen : (tolower name).length = name.length := List.length_map _
  rw [hlen, CStr.length_before_add_after hx]
  omega

/-- **A name of one to eight characters, a dot and one to three characters is stored in the fields of
the first unused entry and read back in lower case**, in a buffer of 13 bytes. -/
theorem name_codec (addr : List Byte) (size : ℤ) (name : CStr) (s : Fs) (k : RootIdx)
    (h : DottedName name) (hk : newEntry s.rootDir = some k) :
    ∃ s' t x cstart, fat12CreateFile addr size name s = .ok () s' ∧
      strsep 0x2E (some name) = (some t, some x) ∧
      s'.rootDir k = enterFields (enterName (s.rootDir k) t x) cstart size ∧
      fat12ConstructFileName (s'.rootDir k) = tolower name ∧
      (∀ i, 12 ≤ i → i < 32 → (enterName (s.rootDir k) t x).get i = (s.rootDir k).get i) ∧
      ((s'.rootDir k).get 11 = (s.rootDir k).get 11 ||| 0x20 ∨ (s'.rootDir k).get 11 = 0x20) ∧
      (fat12ConstructFileName (s'.rootDir k)).length < 13 := by
  obtain ⟨x, hx, hpos, h3, -⟩ := h.extension
  have h8 : (name.before 0x2E).length ≤ 8 := h.le_eight
  have hroot : (s.created size name k).rootDir k = enterFile (s.rootDir k) (name.before 0x2E) x
      (allocate (numClusters size) s.fat).2 size := by
    rw [created_rootDir, Function.update_self, extensionOf, hx, Option.getD_some]
  have hname : fat12ConstructFileName ((s.created size name k).rootDir k) = tolower name :=
    h.construct_created s size k
  refine ⟨s.created size name k, name.before 0x2E, x, (allocate (numClusters size) s.fat).2,
    exists_created hk (h.fits s), ?_, ?_, hname, ?_, ?_, ?_⟩
  · rw [strsep, hx]
  · rw [hroot, enterFile_eq]
  · intro i hi hi'
    exact enterName_get_behind h8 h3 hi hi'
  · rw [hroot]
    exact enterName_archive h8 h3 _ size
  · rw [hname]
    exact h.length_lt

theorem dottedName_full : DottedName (.ofChars "FULLNAME.TXT".toList) where
  noSpace := by decide
  pos := by decide
  le_eight := by decide
  extension := ⟨.ofChars "TXT".toList, by decide, by decide, by decide, by decide⟩

theorem name_codec_full : ∃ s' t x cstart,
    fat12CreateFile [] 600 (.ofChars "FULLNAME.TXT".toList) formatted = .ok () s' ∧
      strsep 0x2E (some (.ofChars "FULLNAME.TXT".toList)) = (some t, some x) ∧
      s'.rootDir 0 = enterFields (enterName (formatted.rootDir 0) t x) cstart 600 ∧
      fat12ConstructFileName (s'.rootDir 0) = tolower (.ofChars "FULLNAME.TXT".toList) ∧
      (∀ i, 12 ≤ i → i < 32 →
        (enterName (formatted.rootDir 0) t x).get i = (formatted.rootDir 0).get i) ∧
      ((s'.rootDir 0).get 11 = (formatted.rootDir 0).get 11 ||| 0x20 ∨ (s'.rootDir 0).get 11 = 0x20) ∧
      (fat12ConstructFileName (s'.rootDir 0)).length < 13 :=
  name_codec [] 600 _ formatted 0 dottedName_full newEntry_formatted

end AdvancedOS
