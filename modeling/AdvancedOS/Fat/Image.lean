import AdvancedOS.Fat.Drive

/-!
# Drives with given contents

* `sectorOf`, `entriesOf_sectorOf`: a sector that holds given directory entries;
* `driveOf`: a drive that holds a table, a root directory and the contents of the clusters;
* `onDrive_driveOf_fat`, `onDrive_driveOf_rootDir`, `clusterSector_driveOf`: **`fat12_init` finds them
  there**;
* `withBoot`: the same with a boot sector.
-/

namespace AdvancedOS

variable {fat : FatIdx → Word} {root : RootIdx → FileEntry} {data : FatIdx → Sector}

/-- The sector with these entries. -/
@[irreducible] def sectorOf (es : SubIdx → FileEntry) : Sector := fun i =>
  (es ⟨i / 32, by have h := i.isLt; change _ < 512 at h; change _ < 16; omega⟩).get (i % 32)

/-- **The entries of a sector that is made of entries.** -/
theorem entriesOf_sectorOf (es : SubIdx → FileEntry) :
    (entriesOf (List.ofFn (sectorOf es)) : SubIdx → FileEntry) = es := by
  funext k
  refine Bytes.ext_get fun j hj => ?_
  have hlt := entryByte_lt k hj
  have hdiv : (32 * (k : ℕ) + j) / 32 = k := by omega
  have hmod : (32 * (k : ℕ) + j) % 32 = j := by omega
  rw [entriesOf_sector _ _ hj, Bytes.get_of_lt hlt]
  unfold sectorOf
  simp only [hdiv, hmod]

/-- The sectors of the drive with this table, root directory and clusters, and zeros elsewhere. -/
@[irreducible] def sectorAt (fat : FatIdx → Word) (root : RootIdx → FileEntry)
    (data : FatIdx → Sector) (n : ℕ) : Sector := fun i =>
  if 1 ≤ n ∧ n < 10 then Packing.pack (tableAt fat) ((n - 1) * FAT_SECTOR_SIZE + i)
  else if h : 19 ≤ n ∧ n < 33 then
    (root ⟨(n - 19) * 16 + i / 32, by
      have h := i.isLt
      change _ < 512 at h
      change _ < 224
      omega⟩).get (i % 32)
  else if h : 33 ≤ n ∧ n < 31 + FAT_NUM_ENTRY then data ⟨n - 31, by omega⟩ i
  else 0

/-- The drive with this table, root directory and clusters. -/
def driveOf (fat : FatIdx → Word) (root : RootIdx → FileEntry) (data : FatIdx → Sector) :
    Word → Sector := fun n => sectorAt fat root data n.toNat

theorem toNat_sector {a b : ℕ} (h : a + b < 2 ^ 32) :
    (BitVec.ofNat 32 a + BitVec.ofNat 32 b : Word).toNat = a + b := by
  rw [BitVec.toNat_add, BitVec.toNat_ofNat, BitVec.toNat_ofNat]
  omega

theorem tableByte_driveOf {i : ℕ} (hi : i < 4608) :
    tableByte (driveOf fat root data) i = Packing.pack (tableAt fat) i := by
  have hsize : FAT_SECTOR_SIZE = 512 := rfl
  have hlt : i % FAT_SECTOR_SIZE < FAT_SECTOR_SIZE := Nat.mod_lt _ (by decide)
  have hpos : (1 + i / FAT_SECTOR_SIZE - 1) * FAT_SECTOR_SIZE + i % FAT_SECTOR_SIZE = i := by
    rw [hsize]
    omega
  have hsec : 1 ≤ 1 + i / FAT_SECTOR_SIZE ∧ 1 + i / FAT_SECTOR_SIZE < 10 := by
    rw [hsize]
    omega
  change (sectorAt fat root data (BitVec.ofNat 32 1 + BitVec.ofNat 32 (i / FAT_SECTOR_SIZE) :
    Word).toNat).get _ = _
  rw [toNat_sector (by omega), Bytes.get_of_lt hlt]
  unfold sectorAt
  rw [if_pos hsec, hpos]

theorem onDrive_driveOf_fat (h : TwelveBit fat) : (onDrive (driveOf fat root data)).fat = fat := by
  funext c
  have hc : (c : ℕ) < 3072 := c.isLt
  have htable : ∀ j, (tableAt fat j).toNat < 0x1000 := by
    intro j
    unfold tableAt
    split
    · exact h _
    · decide
  rw [onDrive_fat, ← @tableAt_fin fat c, ← Packing.unpack_pack htable]
  unfold Packing.unpack
  rw [tableByte_driveOf (by omega), tableByte_driveOf (by omega), tableByte_driveOf (by omega)]

theorem onDrive_driveOf_rootDir : (onDrive (driveOf fat root data)).rootDir = root := by
  funext k
  refine Bytes.ext_get fun j hj => ?_
  have hk : (k : ℕ) < 224 := k.isLt
  have hlt : 32 * ((k : ℕ) % 16) + j < FAT_SECTOR_SIZE := by
    change _ < 512
    omega
  have hidx : (19 + (k : ℕ) / 16 - 19) * 16 + (32 * ((k : ℕ) % 16) + j) / 32 = k := by omega
  have hmod : (32 * ((k : ℕ) % 16) + j) % 32 = j := by omega
  rw [onDrive_rootDir _ _ hj]
  change (sectorAt fat root data (BitVec.ofNat 32 19 + BitVec.ofNat 32 ((k : ℕ) / 16) :
    Word).toNat).get _ = _
  rw [toNat_sector (by omega), Bytes.get_of_lt hlt]
  unfold sectorAt
  rw [if_neg (by omega), dif_pos (by omega)]
  simp only [hidx, hmod]

theorem clusterSector_driveOf {c : FatIdx} (hc : 2 ≤ (c : ℕ)) :
    clusterSector (driveOf fat root data) c = data c := by
  have hlt : (c : ℕ) < 3072 := c.isLt
  have hnum : FAT_NUM_ENTRY = 3072 := rfl
  have hn : (BitVec.ofNat 32 c + BitVec.ofNat 32 33 - 2 : Word) =
      BitVec.ofNat 32 31 + BitVec.ofNat 32 c := by
    apply BitVec.eq_of_toNat_eq
    rw [toNat_sector (by omega), BitVec.toNat_sub, toNat_sector (by omega)]
    change (2 ^ 32 - 2 + _) % _ = _
    omega
  funext i
  change sectorAt fat root data (BitVec.ofNat 32 c + BitVec.ofNat 32 33 - 2 : Word).toNat i = _
  rw [hn, toNat_sector (by omega)]
  have hidx : 31 + (c : ℕ) - 31 = c := by omega
  unfold sectorAt
  rw [if_neg (by omega), dif_neg (by omega), dif_pos (by omega)]
  simp only [hidx]

theorem entry_driveOf {es : FatIdx → SubIdx → FileEntry} {c : FatIdx} (hc : 2 ≤ (c : ℕ))
    (k : SubIdx) :
    (onDrive (driveOf fat root fun c => sectorOf (es c))).entry (.sub c k) = es c k := by
  change entriesOf (List.ofFn (clusterSector (driveOf fat root _) c)) k = _
  rw [clusterSector_driveOf hc, entriesOf_sectorOf]

/-! ## The boot sector -/

/-- The drive with this boot sector. -/
def withBoot (boot : Sector) (disk : Word → Sector) : Word → Sector := Function.update disk 0 boot

section

variable {boot : Sector} {disk : Word → Sector}

theorem withBoot_of_pos {n : Word} (h : 0 < n.toNat) : withBoot boot disk n = disk n := by
  refine Function.update_of_ne ?_ _ _
  rintro rfl
  exact lt_irrefl 0 h

theorem onDrive_withBoot_bootsector : (onDrive (withBoot boot disk)).bootsector = boot := by
  rw [onDrive_bootsector]
  exact Function.update_self ..

theorem onDrive_withBoot_fat : (onDrive (withBoot boot disk)).fat = (onDrive disk).fat := by
  have hbyte : ∀ i < 4608, tableByte (withBoot boot disk) i = tableByte disk i := by
    intro i hi
    have hpos : 0 < (BitVec.ofNat 32 1 + BitVec.ofNat 32 (i / 512) : Word).toNat := by
      rw [toNat_sector (by omega)]
      omega
    unfold tableByte
    exact congrArg (Bytes.get · _) (withBoot_of_pos hpos)
  funext c
  have hc : (c : ℕ) < 3072 := c.isLt
  rw [onDrive_fat, onDrive_fat]
  unfold Packing.unpack
  rw [hbyte _ (by omega), hbyte _ (by omega), hbyte _ (by omega)]

theorem onDrive_withBoot_rootDir :
    (onDrive (withBoot boot disk)).rootDir = (onDrive disk).rootDir := by
  funext k
  refine Bytes.ext_get fun j hj => ?_
  have hk : (k : ℕ) < 224 := k.isLt
  have hpos : 0 < (BitVec.ofNat 32 19 + BitVec.ofNat 32 ((k : ℕ) / 16) : Word).toNat := by
    rw [toNat_sector (by omega)]
    omega
  rw [onDrive_rootDir _ _ hj, onDrive_rootDir _ _ hj]
  exact congrArg (Bytes.get · _) (withBoot_of_pos hpos)

theorem entry_withBoot (c : FatIdx) (k : SubIdx) :
    (onDrive (withBoot boot disk)).entry (.sub c k) = (onDrive disk).entry (.sub c k) := by
  have hc : (c : ℕ) < 3072 := c.isLt
  have hpos : 0 < (BitVec.ofNat 32 c + BitVec.ofNat 32 33 - 2 : Word).toNat := by
    rw [BitVec.toNat_sub, toNat_sector (by omega)]
    change 0 < (2 ^ 32 - 2 + _) % _
    omega
  have hsec : clusterSector (withBoot boot disk) c = clusterSector disk c := withBoot_of_pos hpos
  change entriesOf (List.ofFn (clusterSector (withBoot boot disk) c)) k = _
  rw [hsec]
  rfl

end

end AdvancedOS
