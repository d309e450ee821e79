import AdvancedOS.Fat.Dir

/-!
# What is read from a drive

* `getElem?_bytesOf`, `get_entriesOf`: the bytes of sectors, and of the entries in them;
* `onDrive_rootDir`, `onDrive_fat`: the root directory and the table that `fat12_init` finds, in
  terms of the sectors;
* `SingleDirectory.wellFormed`: **a volume with one empty directory is well formed**;
* `oneDirectory`: a drive with one.
-/

namespace AdvancedOS

variable {disk : Word → Sector} {i j : ℕ} {l : List Byte}

/-! ## Bytes of sectors -/

theorem getElem?_bytesOf (xs : List Sector) (i : ℕ) :
    (bytesOf xs)[i]? = xs[i / FAT_SECTOR_SIZE]?.map fun x => x.get (i % FAT_SECTOR_SIZE) := by
  have hsize : FAT_SECTOR_SIZE = 512 := rfl
  unfold bytesOf
  induction xs generalizing i with
  | nil => simp
  | cons x xs ih =>
    rw [List.flatMap_cons]
    by_cases hi : i < FAT_SECTOR_SIZE
    · have h0 : i / FAT_SECTOR_SIZE = 0 := Nat.div_eq_of_lt hi
      rw [List.getElem?_append_left (by rwa [List.length_ofFn]), h0, Nat.mod_eq_of_lt hi,
        List.getElem?_cons_zero, Option.map_some, Bytes.get_of_lt hi]
      simp [hi]
    · obtain ⟨k, rfl⟩ := Nat.exists_eq_add_of_le (Nat.not_lt.mp hi)
      have hdiv : (FAT_SECTOR_SIZE + k) / FAT_SECTOR_SIZE = k / FAT_SECTOR_SIZE + 1 := by
        rw [hsize]
        omega
      rw [List.getElem?_append_right (by rw [List.length_ofFn]; omega), List.length_ofFn,
        Nat.add_sub_cancel_left, ih, hdiv, List.getElem?_cons_succ, Nat.add_mod_left]

theorem get_entriesOf {n : ℕ} (k : Fin n) (hj : j < 32) :
    (entriesOf l k).get j = l[32 * (k : ℕ) + j]?.getD 0 := by
  unfold entriesOf
  rw [Bytes.get_of_lt hj, Bytes.ofList, List.getElem?_drop]

theorem entryByte_lt (k : SubIdx) (hj : j < 32) : 32 * (k : ℕ) + j < FAT_SECTOR_SIZE := by
  have hk : (k : ℕ) < 16 := k.isLt
  change _ < 512
  omega

theorem entriesOf_sector (x : Sector) (k : SubIdx) (hj : j < 32) :
    (entriesOf (List.ofFn x) k).get j = x.get (32 * (k : ℕ) + j) := by
  have hlt := entryByte_lt k hj
  rw [get_entriesOf k hj, Bytes.get_of_lt hlt]
  simp [hlt]

/-! ## What `fat12_init` finds -/

theorem onDrive_bootsector (disk : Word → Sector) : (onDrive disk).bootsector = disk 0 := by
  refine Bytes.ext_get fun i hi => ?_
  change (Bytes.ofList (bytesOf [disk 0]) : Sector).get i = _
  have h0 : i / FAT_SECTOR_SIZE = 0 := Nat.div_eq_of_lt hi
  rw [Bytes.get_of_lt hi, Bytes.ofList, getElem?_bytesOf, h0, Nat.mod_eq_of_lt hi]
  rfl

theorem onDrive_rootDir (disk : Word → Sector) (k : RootIdx) (hj : j < 32) :
    ((onDrive disk).rootDir k).get j =
      (disk (19 + BitVec.ofNat 32 ((k : ℕ) / 16))).get (32 * ((k : ℕ) % 16) + j) := by
  have hk : (k : ℕ) < 224 := k.isLt
  have hdiv : (32 * (k : ℕ) + j) / FAT_SECTOR_SIZE = (k : ℕ) / 16 := by
    change _ / 512 = _
    omega
  have hmod : (32 * (k : ℕ) + j) % FAT_SECTOR_SIZE = 32 * ((k : ℕ) % 16) + j := by
    change _ % 512 = _
    omega
  have hsec : (k : ℕ) / 16 < FAT_ROOT_SIZE := by
    change _ < 14
    omega
  change (entriesOf (bytesOf _) k).get j = _
  rw [get_entriesOf k hj, getElem?_bytesOf, hdiv, hmod, List.getElem?_map, List.getElem?_range hsec]
  rfl

/-- The bytes of the table on a drive. -/
def tableByte (disk : Word → Sector) (i : ℕ) : Byte :=
  (disk (1 + BitVec.ofNat 32 (i / FAT_SECTOR_SIZE))).get (i % FAT_SECTOR_SIZE)

theorem onDrive_fat (disk : Word → Sector) (c : FatIdx) :
    (onDrive disk).fat c = Packing.unpack (tableByte disk) c := by
  have hc : (c : ℕ) < 3072 := c.isLt
  have hbyte : ∀ i < 4608, (Bytes.ofList (bytesOf ((List.range FAT_PHYS_SIZE).map fun i =>
      disk (BitVec.ofNat 32 FAT_ENTRY_START + BitVec.ofNat 32 i))) :
        Bytes (FAT_PHYS_SIZE * FAT_SECTOR_SIZE)).get i = tableByte disk i := by
    intro i hi
    have hsec : i / FAT_SECTOR_SIZE < FAT_PHYS_SIZE := by
      change i / 512 < 9
      omega
    rw [Bytes.get_of_lt (show i < FAT_PHYS_SIZE * FAT_SECTOR_SIZE from hi), Bytes.ofList,
      getElem?_bytesOf, List.getElem?_map, List.getElem?_range hsec]
    rfl
  change Packing.unpack _ _ = _
  unfold Packing.unpack
  rw [hbyte _ (by omega), hbyte _ (by omega), hbyte _ (by omega)]

/-! ## A directory and nothing else -/

/-- There is nothing in the root directory but a directory with the clusters `cs`, nothing in that
but its links, and the table is that of these clusters. -/
structure SingleDirectory (v : Volume) (cs : List FatIdx) : Prop where
  media : 0x0FF0 ≤ v.fat 0
  inUse : InUse (v.rootDir 0)
  directory : (v.rootDir 0).directory = true
  other : ∀ i, i ≠ 0 → ¬ InUse (v.rootDir i)
  chain : v.Chain (.root 0) cs
  links : ∀ c ∈ cs, ∀ k, InUse (v.entry (.sub c k)) → (v.entry (.sub c k)).get 0 = 0x2E
  inside : ∀ c ∈ cs, 2 ≤ (c : ℕ) ∧ (c : ℕ) ≤ v.last
  final : ∀ c ∈ cs.getLast?, 0x0FF8 ≤ v.fat c
  used : ∀ c : FatIdx, 2 ≤ (c : ℕ) → (v.fat c ≠ 0 ↔ c ∈ cs)

namespace SingleDirectory

variable {v : Volume} {cs : List FatIdx} {loc : Loc} {c : FatIdx}

theorem live_iff (h : SingleDirectory v cs) : Live v loc ↔ loc = .root 0 := by
  constructor
  · intro hl
    induction hl with
    | @root i hu =>
      by_contra hne
      exact h.other i (fun hi => hne (congrArg Loc.root hi)) hu
    | @sub l cs' c k hl hdir hcs hc hu hdot ih =>
      subst ih
      obtain rfl := hcs.unique h.chain
      exact (hdot (h.links c hc k hu)).elim
  · rintro rfl
    exact .root h.inUse

theorem owns_iff (h : SingleDirectory v cs) : Owns v loc c ↔ loc = .root 0 ∧ c ∈ cs := by
  constructor
  · rintro ⟨⟨hl, -⟩, cs', hcs, hc⟩
    obtain rfl := h.live_iff.mp hl
    obtain rfl := hcs.unique h.chain
    exact ⟨rfl, hc⟩
  · rintro ⟨rfl, hc⟩
    exact ⟨⟨h.live_iff.mpr rfl, .inl h.directory⟩, cs, h.chain, hc⟩

theorem wellFormed (h : SingleDirectory v cs) : WellFormed v where
  media := h.media
  chain l hl := by
    obtain rfl := h.live_iff.mp hl.1
    exact ⟨cs, h.chain, h.inside, h.final⟩
  length l hl hdir := by
    obtain rfl := h.live_iff.mp hl
    exact absurd (hdir.symm.trans h.directory) Bool.false_ne_true
  empty l hl hdir := by
    obtain rfl := h.live_iff.mp hl
    exact absurd (hdir.symm.trans h.directory) Bool.false_ne_true
  disjoint l l' c hl hl' := by
    rw [(h.owns_iff.mp hl).1, (h.owns_iff.mp hl').1]
  used c h2 _ := by
    rw [h.used c h2]
    exact ⟨fun hc => ⟨.root 0, h.owns_iff.mpr ⟨rfl, hc⟩⟩, fun ⟨l, hl⟩ => (h.owns_iff.mp hl).2⟩

end SingleDirectory

/-! ## A drive with a directory -/

/-- The entry of a directory. -/
def directoryEntry (name : List Byte) (cluster : BitVec 16) : FileEntry :=
  .ofList (name ++ 0x10 :: List.replicate 14 0 ++ Bytes.le16 cluster)

/-- A directory under the name `A`. -/
def entryA : FileEntry := directoryEntry (0x41 :: List.replicate 10 0x20) 2

/-- The link of this directory to itself. -/
def selfLink : FileEntry := directoryEntry (0x2E :: List.replicate 10 0x20) 2

/-- Its link to the root directory. -/
def rootLink : FileEntry := directoryEntry (0x2E :: 0x2E :: List.replicate 9 0x20) 0

/-- A drive with one directory, which has no entries other than its links. -/
def oneDirectory : Fs :=
  { formatted with
    disk := fun n =>
      if n = 1 then Bytes.ofList [0xF0, 0xFF, 0xFF, 0xFF, 0x0F]
      else if n = 19 then fun i => entryA.get i
      else if n = 33 then fun i => if (i : ℕ) < 32 then selfLink.get i else rootLink.get (i - 32)
      else formatted.disk n }

namespace oneDirectory

/-- The volume on this drive. -/
abbrev vol : Volume := onDrive oneDirectory.disk

theorem get_zero {n : ℕ} : Bytes.get (fun _ : Fin n => 0) i = 0 := by
  unfold Bytes.get
  split <;> rfl

theorem disk_eq_zero {n : Word} (h0 : n ≠ 0) (h1 : n ≠ 1) (h10 : n ≠ 10) (h19 : n ≠ 19)
    (h33 : n ≠ 33) : oneDirectory.disk n = fun _ => 0 := by
  funext i
  simp only [oneDirectory, formatted, h0, h1, h10, h19, h33, if_false, or_self]

theorem rootDir_zero : vol.rootDir 0 = entryA := by
  refine Bytes.ext_get fun j hj => ?_
  rw [onDrive_rootDir _ _ hj]
  have hj' : j < FAT_SECTOR_SIZE := by
    change _ < 512
    omega
  have h0 : 32 * (((0 : RootIdx) : ℕ) % 16) + j = j := by simp
  rw [h0, Bytes.get_of_lt hj']
  rfl

theorem rootDir_of_ne {k : RootIdx} (hk : k ≠ 0) : vol.rootDir k = fun _ => 0 := by
  refine Bytes.ext_get fun j hj => ?_
  rw [onDrive_rootDir _ _ hj, get_zero]
  have hk0 : (k : ℕ) ≠ 0 := fun h => hk (Fin.ext h)
  have hk' : (k : ℕ) < 224 := k.isLt
  have hlt : 32 * ((k : ℕ) % 16) + j < FAT_SECTOR_SIZE := by
    change _ < 512
    omega
  by_cases hq : (k : ℕ) / 16 = 0
  · rw [hq, Bytes.get_of_lt hlt]
    change entryA.get (32 * ((k : ℕ) % 16) + j) = 0
    exact dif_neg (by omega)
  · have hsec : ∀ q : Fin 14, (q : ℕ) ≠ 0 → oneDirectory.disk (19 + BitVec.ofNat 32 q) =
        fun _ => 0 := by
      intro q hq
      have h : 19 + BitVec.ofNat 32 q ≠ 0 ∧ 19 + BitVec.ofNat 32 q ≠ 1 ∧
          19 + BitVec.ofNat 32 q ≠ 10 ∧ 19 + BitVec.ofNat 32 q ≠ 19 ∧
            19 + BitVec.ofNat 32 q ≠ 33 := by
        revert hq
        revert q
        decide
      exact disk_eq_zero h.1 h.2.1 h.2.2.1 h.2.2.2.1 h.2.2.2.2
    rw [hsec ⟨(k : ℕ) / 16, by omega⟩ hq, get_zero]

theorem entry_sub (k : SubIdx) : vol.entry (.sub 2 k) =
    if k = 0 then selfLink else if k = 1 then rootLink else fun _ => 0 := by
  refine Bytes.ext_get fun j hj => ?_
  have hlt := entryByte_lt k hj
  change (entriesOf (List.ofFn (oneDirectory.disk 33)) k).get j = _
  rw [entriesOf_sector _ _ hj, Bytes.get_of_lt hlt]
  change (if 32 * (k : ℕ) + j < 32 then selfLink.get (32 * (k : ℕ) + j)
    else rootLink.get (32 * (k : ℕ) + j - 32)) = _
  by_cases h0 : k = 0
  · subst h0
    have hj0 : 32 * ((0 : SubIdx) : ℕ) + j = j := by simp
    rw [hj0, if_pos hj, if_pos rfl]
  · have hk0 : (k : ℕ) ≠ 0 := fun h => h0 (Fin.ext h)
    rw [if_neg (by omega), if_neg h0]
    by_cases h1 : k = 1
    · subst h1
      have hj1 : 32 * ((1 : SubIdx) : ℕ) + j - 32 = j := Nat.add_sub_cancel_left 32 j
      rw [hj1, if_pos rfl]
    · have hk1 : (k : ℕ) ≠ 1 := fun h => h1 (Fin.ext h)
      rw [if_neg h1, get_zero]
      exact dif_neg (by omega)

theorem fat_eq (c : FatIdx) : vol.fat c =
    if (c : ℕ) = 0 then 0xFF0 else if (c : ℕ) = 1 ∨ (c : ℕ) = 2 then 0xFFF else 0 := by
  have hsize : FAT_SECTOR_SIZE = 512 := rfl
  have hzero : ∀ i, 5 ≤ i → i < 4608 → tableByte oneDirectory.disk i = 0 := by
    intro i h5 hi
    unfold tableByte
    by_cases hq : i / FAT_SECTOR_SIZE = 0
    · have hlt : i % FAT_SECTOR_SIZE < FAT_SECTOR_SIZE := Nat.mod_lt _ (by decide)
      have h5' : 5 ≤ i % FAT_SECTOR_SIZE := by
        rw [hsize] at hq ⊢
        omega
      rw [hq, Bytes.get_of_lt hlt]
      change ([0xF0, 0xFF, 0xFF, 0xFF, 0x0F] : List Byte)[i % FAT_SECTOR_SIZE]?.getD 0 = _
      rw [List.getElem?_eq_none h5']
      rfl
    · have hsec : ∀ q : Fin 9, (q : ℕ) ≠ 0 → oneDirectory.disk (1 + BitVec.ofNat 32 q) =
          fun _ => 0 := by
        intro q hq
        have h : 1 + BitVec.ofNat 32 q ≠ 0 ∧ 1 + BitVec.ofNat 32 q ≠ 1 ∧
            1 + BitVec.ofNat 32 q ≠ 10 ∧ 1 + BitVec.ofNat 32 q ≠ 19 ∧
              1 + BitVec.ofNat 32 q ≠ 33 := by
          revert hq
          revert q
          decide
        exact disk_eq_zero h.1 h.2.1 h.2.2.1 h.2.2.2.1 h.2.2.2.2
      rw [hsec ⟨i / FAT_SECTOR_SIZE, by rw [hsize]; omega⟩ hq, get_zero]
  have hc : (c : ℕ) < 3072 := c.isLt
  rw [onDrive_fat]
  by_cases h4 : (c : ℕ) < 4
  · have key : ∀ n : Fin 4, Packing.unpack (tableByte oneDirectory.disk) n =
        if (n : ℕ) = 0 then 0xFF0 else if (n : ℕ) = 1 ∨ (n : ℕ) = 2 then 0xFFF else 0 := by decide
    exact key ⟨c, h4⟩
  · rw [if_neg (by omega), if_neg (by omega)]
    unfold Packing.unpack
    rw [hzero _ (by omega) (by omega), hzero _ (by omega) (by omega)]
    split
    · decide
    · rw [hzero _ (by omega) (by omega)]
      decide

theorem chain : vol.Chain (.root 0) [2] := by
  refine FatChain.single (fatIdx_eq_some.mpr ?_) ?_
  · rw [Volume.entry, rootDir_zero]
    decide
  · rw [fat_eq]
    decide

theorem entry_root : vol.entry (.root 0) = entryA := rootDir_zero

theorem single : SingleDirectory vol [2] where
  media := by
    rw [fat_eq]
    decide
  inUse := by
    rw [rootDir_zero]
    decide
  directory := by
    rw [rootDir_zero]
    decide
  other i hi hu := by
    rw [rootDir_of_ne hi] at hu
    exact hu.1.1 rfl
  chain := chain
  links c hc k hu := by
    obtain rfl := List.mem_singleton.mp hc
    rw [entry_sub] at hu ⊢
    -- the first two entries are the links, and the others are free
    split_ifs at hu ⊢
    · decide
    · decide
    · exact (hu.1.1 rfl).elim
  inside c hc := by
    obtain rfl := List.mem_singleton.mp hc
    rw [Volume.last, onDrive_bootsector]
    decide
  final c hc := by
    obtain rfl : 2 = c := Option.some.inj hc
    rw [fat_eq]
    decide
  used c h2 := by
    have hc : c ∈ [(2 : FatIdx)] ↔ (c : ℕ) = 2 := by
      rw [List.mem_singleton]
      exact Fin.ext_iff
    rw [fat_eq, if_neg (by omega), hc]
    split_ifs with h
    · exact iff_of_true (by decide) (by omega)
    · exact iff_of_false (by simp) (by omega)

theorem live_iff {l : Loc} : Live vol l ↔ l = .root 0 := single.live_iff

theorem wellFormedDirs : WellFormedDirs vol where
  toWellFormed := single.wellFormed
  names l hl := by
    obtain rfl := live_iff.mp hl
    rw [entry_root]
    refine ⟨⟨?_, ?_⟩, ?_, ?_⟩ <;> decide +kernel
  self l c cs hl hdir hcs := by
    obtain rfl := live_iff.mp hl
    cases hcs.unique chain
    refine ⟨?_, ?_, ?_⟩
    · rw [entry_sub]
      decide +kernel
    · rw [entry_sub]
      decide
    · rw [entry_sub, Volume.cluster, entry_root]
      decide
  up l c cs d hl hdir hcs hp := by
    obtain rfl := live_iff.mp hl
    cases hcs.unique chain
    cases hp
    refine ⟨?_, ?_, ?_⟩
    · rw [entry_sub]
      decide +kernel
    · rw [entry_sub]
      decide
    · rw [entry_sub, Volume.cluster]
      decide
  links l c cs b k hl hdir hcs hb hu _ := by
    obtain rfl := live_iff.mp hl
    cases hcs.unique chain
    obtain rfl := List.mem_singleton.mp hb
    refine ⟨rfl, ?_⟩
    by_contra hk
    obtain ⟨h0, h1⟩ := not_or.mp hk
    rw [entry_sub, if_neg h0, if_neg h1] at hu
    exact hu.1.1 rfl

end oneDirectory

end AdvancedOS
