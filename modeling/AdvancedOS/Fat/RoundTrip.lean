import AdvancedOS.Fat.Walk

/-!
# What is written to a chain is read back

* `ReadInto`, `WrittenFrom`: a buffer and the clusters of a list have been made equal, in one of the
  two directions, and nothing else has changed;
* `transferred_readInto`, `transferred_writtenFrom`: **this is what moving the clusters does**;
* `write_read`: **a chain that is written and read again gives the same bytes**;
* `transfer_exact_iff`: **a transfer of a number of bytes moves what it should exactly if the chain
  is no longer than that**, since the count is looked at too late;
* `not_transfer_exact`: no byte of a file of one cluster.
-/

namespace AdvancedOS

open Function (update)

variable {s s' : Fs} {buf buf' c addr sec x : Word} {cs : List FatIdx} {i k n : ℕ} {j : FatIdx}
  {fat : FatIdx → Word}

/-- The bytes of `n` clusters from the address `buf` on. -/
def clusterSpan (buf : Word) (n : ℕ) : Set Word := span buf (n * FAT_SECTOR_SIZE)

/-- The buffer holds the clusters, and what passed through the buffer of the drive apart, nothing
else has changed in the memory. -/
structure ReadInto (buf : Word) (cs : List FatIdx) (s s' : Fs) : Prop where
  files : s'.toFileSystem = s.toFileSystem
  content : ∀ k j, cs[k]? = some j → s'.mem.sector (place buf k) = clusterSector s.disk j
  frame : ∀ x, x ∉ clusterSpan buf cs.length → x ∉ driveBuffer → s'.mem x = s.mem x

/-- The clusters hold what is in the buffer, and no other sector has changed. -/
structure WrittenFrom (buf : Word) (cs : List FatIdx) (s s' : Fs) : Prop where
  disk : { s'.toFileSystem with disk := s.disk } = s.toFileSystem
  content : ∀ k j, cs[k]? = some j → clusterSector s'.disk j = s.mem.sector (place buf k)
  frame : ∀ n, (∀ j ∈ cs, sectorNo j ≠ n) → s'.disk n = s.disk n
  mem : s'.mem = s.mem

/-! ## One cluster -/

theorem place_add (buf : Word) (i k : ℕ) : place (place buf i) k = place buf (i + k) := by
  rw [place, place, place, BitVec.add_assoc, ← BitVec.ofNat_add, Nat.add_mul]

theorem place_zero (buf : Word) : place buf 0 = buf := by
  rw [place, Nat.zero_mul]
  exact BitVec.add_zero buf

theorem sector_congr {m m' : Mem} (h : ∀ x ∈ span addr FAT_SECTOR_SIZE, m' x = m x) :
    m'.sector addr = m.sector addr := by
  funext k
  exact h _ (add_mem_span (by decide) k.isLt)

theorem memcpy_of_disjoint {m : Mem} (hd : Disjoint (span addr FAT_SECTOR_SIZE) driveBuffer) :
    (m.memcpy addr TMP_USER_ADDR FAT_SECTOR_SIZE).sector addr = m.sector TMP_USER_ADDR := by
  funext k
  unfold Mem.memcpy
  exact copyUp_of_mem (by decide) hd k.isLt

theorem readTo_sector (hd : Disjoint (span addr FAT_SECTOR_SIZE) driveBuffer) :
    (s.readTo addr sec).mem.sector addr = s.disk sec := by
  change Mem.sector (Mem.memcpy _ _ _ _) _ = _
  rw [memcpy_of_disjoint hd]
  exact sector_store _ _ _

theorem readTo_of_notMem (hd : Disjoint (span addr FAT_SECTOR_SIZE) driveBuffer)
    (hx : x ∉ span addr FAT_SECTOR_SIZE) (hbuf : x ∉ driveBuffer) :
    (s.readTo addr sec).mem x = s.mem x := by
  change Mem.memcpy _ _ _ _ x = _
  unfold Mem.memcpy
  rw [copyUp_of_notMem (by decide) hd hx]
  refine store_of_notMem fun hx' => hbuf ?_
  rwa [List.length_ofFn] at hx'

theorem sectorNo_injective : Function.Injective sectorNo := by
  intro a b hab
  have ha := a.isLt
  have hb := b.isLt
  have hsum : BitVec.ofNat 32 a = BitVec.ofNat 32 b := by
    rw [sectorNo, sectorNo] at hab
    bv_omega
  have htoNat := congrArg BitVec.toNat hsum
  simp only [BitVec.toNat_ofNat] at htoNat
  have hentries : FAT_NUM_ENTRY = 3072 := rfl
  exact Fin.ext (by omega)

/-! ## All clusters -/

theorem clusterSpan_succ (n : ℕ) : clusterSpan (place buf 1) n ⊆ clusterSpan buf (n + 1) := by
  rw [clusterSpan, clusterSpan, Nat.succ_mul, Nat.add_comm, place, Nat.one_mul]
  exact span_add_subset _

theorem first_subset (n : ℕ) : span buf FAT_SECTOR_SIZE ⊆ clusterSpan buf (n + 1) :=
  span_subset (Nat.le_mul_of_pos_left _ n.succ_pos)

theorem transferred_shift (f : Word → Word → Fs → Fs) (buf : Word) (i k : ℕ) (cs : List FatIdx)
    (s : Fs) : s.transferred f buf (i + k) cs = s.transferred f (place buf i) k cs := by
  induction cs generalizing k s with
  | nil => rfl
  | cons j cs ih =>
    rw [Fs.transferred, Fs.transferred, Nat.add_assoc, ih, place_add]

theorem transferred_readInto (hlen : cs.length * FAT_SECTOR_SIZE ≤ 2 ^ 32)
    (hd : Disjoint (clusterSpan buf cs.length) driveBuffer) :
    ReadInto buf cs s (s.transferred Fs.readTo buf 0 cs) := by
  induction cs generalizing buf s with
  | nil => exact ⟨rfl, fun _ _ h => (Option.some_ne_none _ h.symm).elim, fun _ _ _ => rfl⟩
  | cons j cs ih =>
    rw [List.length_cons] at hlen hd
    have hfirst := hd.mono_left (first_subset cs.length)
    set s₁ := (s.readTo (place buf 0) (sectorNo j)).setFlag true with hs₁
    have hmem : s₁.mem = (s.readTo buf (sectorNo j)).mem := by rw [hs₁, place_zero]; rfl
    have hrest : ReadInto (place buf 1) cs s₁ (s₁.transferred Fs.readTo (place buf 1) 0 cs) :=
      ih (by rw [Nat.succ_mul] at hlen; omega) (hd.mono_left (clusterSpan_succ _))
    have hfinal : s.transferred Fs.readTo buf 0 (j :: cs) =
        s₁.transferred Fs.readTo (place buf 1) 0 cs := transferred_shift Fs.readTo buf 1 0 cs s₁
    rw [hfinal]
    refine ⟨hrest.files, fun k i hk => ?_, fun x hx hbuf => ?_⟩
    · cases k with
      | zero =>
        obtain rfl : j = i := Option.some.inj hk
        rw [place_zero, clusterSector_eq, ← readTo_sector hfirst, ← hmem]
        -- the other clusters go elsewhere
        refine sector_congr fun x hx => hrest.frame x (fun hx' => ?_)
          (Set.disjoint_left.mp hfirst hx)
        rw [clusterSpan, place, Nat.one_mul] at hx'
        refine span_add_disjoint ?_ hx hx'
        rw [Nat.succ_mul] at hlen
        omega
      | succ k =>
        have hplace : place (place buf 1) k = place buf (k + 1) := by rw [place_add, Nat.add_comm]
        rw [← hplace]
        exact hrest.content k i hk
    · rw [hrest.frame x (fun hx' => hx (clusterSpan_succ _ hx')) hbuf, hmem]
      exact readTo_of_notMem hfirst (fun hx' => hx (first_subset _ hx')) hbuf

theorem transferred_writtenFrom (hnd : cs.Nodup) :
    WrittenFrom buf cs s (s.transferred Fs.writtenFrom buf 0 cs) := by
  induction cs generalizing buf s with
  | nil => exact ⟨rfl, fun _ _ h => (Option.some_ne_none _ h.symm).elim, fun _ _ => rfl, rfl⟩
  | cons j cs ih =>
    set s₁ := (s.writtenFrom (place buf 0) (sectorNo j)).setFlag true with hs₁
    have hdisk : s₁.disk = update s.disk (sectorNo j) (s.mem.sector buf) := by
      rw [hs₁, place_zero]
      rfl
    have hrest : WrittenFrom (place buf 1) cs s₁ (s₁.transferred Fs.writtenFrom (place buf 1) 0 cs) :=
      ih (List.nodup_cons.mp hnd).2
    have hfinal : s.transferred Fs.writtenFrom buf 0 (j :: cs) =
        s₁.transferred Fs.writtenFrom (place buf 1) 0 cs :=
      transferred_shift Fs.writtenFrom buf 1 0 cs s₁
    rw [hfinal]
    refine ⟨?_, fun k i hk => ?_, fun n hn => ?_, hrest.mem⟩
    · have hfs : { s₁.toFileSystem with disk := s.disk } = s.toFileSystem := rfl
      rw [← hfs, ← hrest.disk]
    · cases k with
      | zero =>
        obtain rfl : j = i := Option.some.inj hk
        have hne : ∀ i ∈ cs, sectorNo i ≠ sectorNo j := fun i hi he =>
          (List.nodup_cons.mp hnd).1 (sectorNo_injective he ▸ hi)
        rw [clusterSector_eq, hrest.frame _ hne, hdisk, Function.update_self, place_zero]
      | succ k =>
        have hplace : place (place buf 1) k = place buf (k + 1) := by rw [place_add, Nat.add_comm]
        rw [← hplace]
        exact hrest.content k i hk
    · rw [hrest.frame n fun i hi => hn i (List.mem_cons_of_mem j hi), hdisk]
      exact Function.update_of_ne (hn j List.mem_cons_self).symm ..

theorem byte_split (buf : Word) (n : ℕ) : buf + BitVec.ofNat 32 n =
    place buf (n / FAT_SECTOR_SIZE) + BitVec.ofNat 32 (n % FAT_SECTOR_SIZE) := by
  rw [place, BitVec.add_assoc, ← BitVec.ofNat_add, Nat.div_add_mod']

theorem ReadInto.byte (h : ReadInto buf cs s s') (hj : cs[n / FAT_SECTOR_SIZE]? = some j) :
    s'.mem (buf + BitVec.ofNat 32 n) =
      clusterSector s.disk j ⟨n % FAT_SECTOR_SIZE, Nat.mod_lt n (by decide)⟩ := by
  rw [byte_split]
  exact congrFun (h.content _ _ hj) ⟨n % FAT_SECTOR_SIZE, _⟩

/-! ## The functions -/

theorem length_le_entries (h : FatChain fat c cs) : cs.length ≤ FAT_NUM_ENTRY :=
  h.nodup.length_le_card.trans_eq (Fintype.card_fin _)

theorem clusters_le (h : FatChain fat c cs) : cs.length * FAT_SECTOR_SIZE ≤ 2 ^ 32 :=
  (Nat.mul_le_mul_right _ (length_le_entries h)).trans (by decide)

/-- Where the clusters that the loop visits are known, so is what it does. -/
theorem exists_transferred {move : Word → Word → FsKern Unit} {f : Word → Word → Fs → Fs}
    {more : ℕ → Bool} (ht : Transfers move f) (hv : visitLoop s.fat more n 0 c = .ok cs) :
    transferLoop move buf more n 0 c s = .ok (cs.length - 1) (s.transferred f buf 0 cs) := by
  have hend : Ends (transferLoop move buf more n 0 c) s
      (fun k s' => k = cs.length - 1 ∧ s' = s.transferred f buf 0 cs) fun _ _ => False := by
    refine (transferLoop_ends ht).mono ?_ fun e _ he => ?_
    · rintro k s' ⟨cs', hcs', hk, rfl⟩
      cases hv.symm.trans hcs'
      exact ⟨by omega, rfl⟩
    · cases hv.symm.trans he
  obtain ⟨k, s', hk, rfl, rfl⟩ := exists_ok_iff.mpr hend
  exact hk

theorem visitLoop_all (h : FatChain fat c cs) : visitLoop fat (fun _ => true) rounds 0 c = .ok cs :=
  (visitLoop_true _ _ _).trans (follow_eq_ok.mpr h)

theorem visitLoop_count (h : FatChain fat c cs) (k : ℕ) :
    visitLoop fat (fun i => !decide (i + 1 > k)) (rounds + k) 0 c = .ok (cs.take (k + 1)) :=
  visitLoop_chain h ((length_lt_rounds h.nodup).le.trans (Nat.le_add_right _ _))

theorem fat12ReadClustersTo_eq (h : FatChain s.fat c cs) :
    fat12ReadClustersTo buf c s = .ok (cs.length - 1) (s.transferred Fs.readTo buf 0 cs) :=
  exists_transferred transfers_read (visitLoop_all h)

theorem fat12WriteClusters_eq (h : FatChain s.fat c cs) :
    fat12WriteClusters buf c s = .ok (cs.length - 1) (s.transferred Fs.writtenFrom buf 0 cs) :=
  exists_transferred transfers_write (visitLoop_all h)

/-- **What `fat12_read_clusters` returns in the model of the commands is what it stores at `buf`**, if
that is not where the buffer of the drive is. -/
theorem fat12ReadClusters_stores {l : List Sector} (hr : fat12ReadClusters c s = .ok l s')
    (hd : Disjoint (clusterSpan buf l.length) driveBuffer) :
    ∃ k s'', fat12ReadClustersTo buf c s = .ok k s'' ∧ s''.toFileSystem = s'.toFileSystem ∧
      (∀ k x, l[k]? = some x → s''.mem.sector (place buf k) = x) ∧
      ∀ x, x ∉ clusterSpan buf l.length → x ∉ driveBuffer → s''.mem x = s.mem x := by
  obtain ⟨cs, hcs, rfl, rfl⟩ := readClustersLoop_ends.of_ok hr
  have h : FatChain s.fat c cs := follow_eq_ok.mp hcs
  rw [List.length_map] at hd ⊢
  have hread := transferred_readInto (s := s) (clusters_le h) hd
  refine ⟨_, _, fat12ReadClustersTo_eq h, hread.files, fun k x hx => ?_, hread.frame⟩
  obtain ⟨j, hj, rfl⟩ := Option.map_eq_some_iff.mp ((List.getElem?_map ..).symm.trans hx)
  exact hread.content k j hj

/-- **A chain of data clusters that is written and read again.** The bytes at `buf'` are those at
`buf`, writing changes the sectors of the chain only, reading changes the memory at `buf'` and the
buffer of the drive only, and the chain is as long as is counted. -/
theorem write_read (h : FatChain s.fat c cs) (hdata : ∀ j ∈ cs, 2 ≤ (j : ℕ))
    (hd : Disjoint (clusterSpan buf' cs.length) driveBuffer) :
    ∃ k₁ s₁ k₂ s₂, fat12WriteClusters buf c s = .ok k₁ s₁ ∧
      fat12ReadClustersTo buf' c s₁ = .ok k₂ s₂ ∧
      (∀ n < cs.length * FAT_SECTOR_SIZE,
        s₂.mem (buf' + BitVec.ofNat 32 n) = s.mem (buf + BitVec.ofNat 32 n)) ∧
      (∀ n, (∀ j ∈ cs, sectorNo j ≠ n) → s₁.disk n = s.disk n) ∧ s₁.mem = s.mem ∧
      (∀ x, x ∉ clusterSpan buf' cs.length → x ∉ driveBuffer → s₂.mem x = s₁.mem x) ∧
      s₂.disk = s₁.disk ∧ fat12GetNumCluster c s = .ok cs.length s := by
  have hw : WrittenFrom buf cs s (s.transferred Fs.writtenFrom buf 0 cs) :=
    transferred_writtenFrom h.nodup
  set s₁ := s.transferred Fs.writtenFrom buf 0 cs
  have hfat : s₁.fat = s.fat := by
    have hfat := congrArg FileSystem.fat hw.disk
    exact hfat
  have hr : ReadInto buf' cs s₁ (s₁.transferred Fs.readTo buf' 0 cs) :=
    transferred_readInto (clusters_le h) hd
  refine ⟨_, s₁, _, _, fat12WriteClusters_eq h, fat12ReadClustersTo_eq (hfat ▸ h), fun n hn => ?_,
    hw.frame, hw.mem, hr.frame, congrArg FileSystem.disk hr.files, fat12GetNumCluster_eq h ?_⟩
  · have hq : n / FAT_SECTOR_SIZE < cs.length := Nat.div_lt_of_lt_mul (Nat.mul_comm _ _ ▸ hn)
    have hj : cs[n / FAT_SECTOR_SIZE]? = some cs[n / FAT_SECTOR_SIZE] := List.getElem?_eq_getElem hq
    rw [hr.byte hj, hw.content _ _ hj, byte_split buf n]
    rfl
  · rintro rfl
    cases cs with
    | nil => exact h.ne_nil rfl
    | cons j cs =>
      have hj := fatIdx_eq_some.mp h.head
      have := hdata j List.mem_cons_self
      simp at hj
      omega

/-! ## Transfers of a number of bytes -/

theorem clustersOf_eq (numBytes : Word) : clustersOf numBytes = clustersFor numBytes.toNat := by
  have hsize : FAT_SECTOR_SIZE = 512 := rfl
  unfold clustersOf clustersFor
  rw [hsize]
  split_ifs <;> omega

/-- The clusters that `numBytes` bytes take, as far as the chain `cs` from `c` has them, are read to
`buf` and written from there, and for all of the chain the functions without a count do the same. -/
structure TransferExact (buf c numBytes : Word) (cs : List FatIdx) (s : Fs) : Prop where
  read : ∃ k s', fat12ReadBytes buf c numBytes s = .ok k s' ∧
    ReadInto buf (cs.take (clustersFor numBytes.toNat)) s s'
  write : ∃ k s', fat12WriteBytes buf c numBytes s = .ok k s' ∧
    WrittenFrom buf (cs.take (clustersFor numBytes.toNat)) s s'
  whole : cs.length ≤ clustersFor numBytes.toNat →
    fat12ReadBytes buf c numBytes s = fat12ReadClustersTo buf c s ∧
      fat12WriteBytes buf c numBytes s = fat12WriteClusters buf c s

variable {numBytes : Word}

theorem fat12ReadBytes_eq (h : FatChain s.fat c cs) : fat12ReadBytes buf c numBytes s =
    .ok ((cs.take (clustersFor numBytes.toNat + 1)).length - 1)
      (s.transferred Fs.readTo buf 0 (cs.take (clustersFor numBytes.toNat + 1))) := by
  rw [← clustersOf_eq]
  exact exists_transferred transfers_read (visitLoop_count h _)

theorem fat12WriteBytes_eq (h : FatChain s.fat c cs) : fat12WriteBytes buf c numBytes s =
    .ok ((cs.take (clustersFor numBytes.toNat + 1)).length - 1)
      (s.transferred Fs.writtenFrom buf 0 (cs.take (clustersFor numBytes.toNat + 1))) := by
  rw [← clustersOf_eq]
  exact exists_transferred transfers_write (visitLoop_count h _)

theorem transferExact_of_le (h : FatChain s.fat c cs)
    (hd : Disjoint (clusterSpan buf cs.length) driveBuffer)
    (hle : cs.length ≤ clustersFor numBytes.toNat) : TransferExact buf c numBytes cs s := by
  have hone : cs.take (clustersFor numBytes.toNat + 1) = cs := List.take_of_length_le (by omega)
  have hread := @fat12ReadBytes_eq s buf c cs numBytes h
  have hwrite := @fat12WriteBytes_eq s buf c cs numBytes h
  rw [hone] at hread hwrite
  refine ⟨⟨_, _, hread, ?_⟩, ⟨_, _, hwrite, ?_⟩, fun _ => ⟨?_, ?_⟩⟩
  · rw [List.take_of_length_le hle]
    exact transferred_readInto (clusters_le h) hd
  · rw [List.take_of_length_le hle]
    exact transferred_writtenFrom h.nodup
  · exact hread.trans (fat12ReadClustersTo_eq h).symm
  · exact hwrite.trans (fat12WriteClusters_eq h).symm

/-- **Otherwise one cluster too many is read**, to the place after the others. -/
theorem not_transferExact (h : FatChain s.fat c cs)
    (hd : Disjoint (clusterSpan buf cs.length) driveBuffer)
    (hlt : clustersFor numBytes.toNat < cs.length)
    (hne : ∀ j, cs[clustersFor numBytes.toNat]? = some j →
      clusterSector s.disk j ≠ s.mem.sector (place buf (clustersFor numBytes.toNat))) :
    ¬ TransferExact buf c numBytes cs s := by
  rintro ⟨⟨k, s', hk, hs'⟩, -, -⟩
  cases hk.symm.trans (fat12ReadBytes_eq h)
  set n := clustersFor numBytes.toNat
  have hlen : (cs.take (n + 1)).length ≤ cs.length := by
    rw [List.length_take]
    exact min_le_right _ _
  have hmore : ReadInto buf (cs.take (n + 1)) s
      (s.transferred Fs.readTo buf 0 (cs.take (n + 1))) :=
    transferred_readInto ((Nat.mul_le_mul_right _ hlen).trans (clusters_le h))
      (hd.mono_left (span_subset (Nat.mul_le_mul_right _ hlen)))
  have hget : cs[n]? = some cs[n] := List.getElem?_eq_getElem hlt
  refine hne _ hget ?_
  rw [← hmore.content n cs[n] (by rw [List.getElem?_take_of_lt n.lt_succ_self, hget])]
  -- the bytes there should be as before
  refine sector_congr fun x hx => hs'.frame x (fun hx' => ?_) fun hbuf => ?_
  · have hmin : (cs.take n).length = n := List.length_take_of_le hlt.le
    rw [hmin] at hx'
    refine span_add_disjoint ?_ hx' hx
    rw [← Nat.succ_mul]
    exact (Nat.mul_le_mul_right _ hlt).trans (clusters_le h)
  · refine Set.disjoint_left.mp hd (span_subset (Nat.mul_le_mul_right _ hlt) ?_) hbuf
    rw [Nat.succ_mul]
    exact span_add_subset _ hx

/-- A drive that holds ones, and a memory that holds zeros. -/
def ones (fat : FatIdx → Word) : Fs := { formatted with fat := fat, disk := fun _ _ => 1 }

theorem disjoint_above (h : n ≤ FAT_NUM_ENTRY * FAT_SECTOR_SIZE) :
    Disjoint (span 0x2000 n) driveBuffer := by
  have hmax : FAT_NUM_ENTRY * FAT_SECTOR_SIZE = 0x180000 := by decide
  have hbase : (0x2000 : Word).toNat = 0x2000 := rfl
  refine Set.disjoint_left.mpr fun x hx hbuf => ?_
  exact span_disjoint (b := (0x2000 : Word)) (n := n) (by decide) (by omega) hbuf hx

/-- The clusters of a chain fit after the address `0x2000`. -/
theorem disjoint_after (h : FatChain fat c cs) :
    Disjoint (clusterSpan 0x2000 cs.length) driveBuffer :=
  disjoint_above (Nat.mul_le_mul_right FAT_SECTOR_SIZE (length_le_entries h))

/-- **For every chain and number of bytes: the transfers are exact, whatever is on the drive and in
the memory, exactly if the chain has no more clusters than the bytes take.** -/
theorem transfer_exact_iff (h : FatChain fat c cs) (numBytes : Word) :
    (∀ s buf, s.fat = fat → Disjoint (clusterSpan buf cs.length) driveBuffer →
      TransferExact buf c numBytes cs s) ↔ cs.length ≤ clustersFor numBytes.toNat := by
  constructor
  · intro hexact
    by_contra hlt
    refine not_transferExact (s := ones fat) h (disjoint_after h) (not_le.mp hlt) (fun j _ he => ?_)
      (hexact (ones fat) 0x2000 rfl (disjoint_after h))
    have hone : (1 : Byte) = 0 := congrFun he ⟨0, by decide⟩
    exact absurd hone (by decide)
  · intro hle s buf hfat hd
    exact transferExact_of_le (hfat ▸ h) hd hle

/-! ## Files of one and of two clusters -/

/-- A drive with a file on the clusters 2 and 3. -/
def twoLinked : Fs :=
  { formatted.change (fun s => (s.setFat 2 3).setFat 3 0x0FFF) with mem := fun x => x.setWidth 8 }

theorem twoLinked_chain : FatChain twoLinked.fat 2 [2, 3] :=
  .cons (i := 2) (by decide) (by decide) (.single (by decide) (by decide))

/-- What is in the memory at `0x2000` is written, and read back to `0x3000`. -/
theorem write_read_twoClusters : ∃ k₁ s₁ k₂ s₂,
    fat12WriteClusters 0x2000 2 twoLinked = .ok k₁ s₁ ∧
    fat12ReadClustersTo 0x3000 2 s₁ = .ok k₂ s₂ ∧
    (∀ n < [(2 : FatIdx), 3].length * FAT_SECTOR_SIZE,
      s₂.mem (0x3000 + BitVec.ofNat 32 n) = twoLinked.mem (0x2000 + BitVec.ofNat 32 n)) ∧
    (∀ n, (∀ j ∈ [(2 : FatIdx), 3], sectorNo j ≠ n) → s₁.disk n = twoLinked.disk n) ∧
    s₁.mem = twoLinked.mem ∧
    (∀ x, x ∉ clusterSpan 0x3000 [(2 : FatIdx), 3].length → x ∉ driveBuffer → s₂.mem x = s₁.mem x) ∧
    s₂.disk = s₁.disk ∧
    fat12GetNumCluster 2 twoLinked = .ok [(2 : FatIdx), 3].length twoLinked := by
  refine write_read twoLinked_chain ?_ (Set.disjoint_left.mpr fun x hx hbuf => ?_)
  · exact List.forall_mem_cons.mpr ⟨by decide, List.forall_mem_singleton.mpr (by decide)⟩
  exact span_disjoint (b := (0x3000 : Word)) (n := [(2 : FatIdx), 3].length * FAT_SECTOR_SIZE)
    (by decide) (by decide) hbuf hx

/-- The second cluster in part. -/
theorem transfer_exact_iff_twoClusters :
    (∀ s buf, s.fat = twoLinked.fat →
      Disjoint (clusterSpan buf [(2 : FatIdx), 3].length) driveBuffer →
        TransferExact buf 2 600 [2, 3] s) ↔
      [(2 : FatIdx), 3].length ≤ clustersFor (600 : Word).toNat :=
  transfer_exact_iff twoLinked_chain 600

/-- No byte of a file of one cluster: the whole cluster is read. -/
theorem not_transfer_exact : FatChain oneCluster.fat 2 [2] ∧
    Disjoint (clusterSpan 0x2000 [(2 : FatIdx)].length) driveBuffer ∧
      ¬ TransferExact 0x2000 2 0 [2] { oneCluster with disk := lettered.disk } := by
  refine ⟨oneCluster_chain, disjoint_after oneCluster_chain, ?_⟩
  refine not_transferExact oneCluster_chain (disjoint_after oneCluster_chain) (by decide)
    fun j hj he => ?_
  obtain rfl : 2 = j := Option.some.inj hj
  exact absurd (congrFun he ⟨0, by decide⟩) (by decide)

end AdvancedOS
