import AdvancedOS.Fat.Spec
import AdvancedOS.Lib.Copy

/-!
# Moving clusters between the drive and the memory

`fat12_read_clusters`, `fat12_read_bytes` and their counterparts for writing, with the buffer that they
are given and the area at `TMP_USER_ADDR` through which everything that is read passes. No command
calls the functions that write.

* `transferLoop`: the loop that the four functions share, and the functions;
* `visitLoop`: the clusters that it visits;
* `transferLoop_ends`: **it moves these, one after the other, and ends as the table or the count
  says**;
* `visitLoop_chain`: **along a chain these are its first ones, and one more than are counted.**
-/

namespace AdvancedOS

open Function (update)

/-! ## Sectors -/

/-- `memcpy`. -/
@[irreducible] def Mem.memcpy (m : Mem) (dst src : Word) (n : ℕ) : Mem := copyUp dst src n m

/-- The 512 bytes from the address `a` on. -/
def Mem.sector (m : Mem) (a : Word) : Sector := fun i => m (a + BitVec.ofNat 32 i)

/-- `read_sectors`, with what is stored at `addr`. -/
def readSectorsTo (addr startsec : Word) (cnt : ℕ) : FsKern Unit :=
  (List.range cnt).forM fun i => do
    let _ ← readsect (TMP_USER_ADDR + BitVec.ofNat 32 (i * FAT_SECTOR_SIZE))
      (startsec + BitVec.ofNat 32 i)
    modify fun s => s.setMem (s.mem.memcpy addr TMP_USER_ADDR (cnt * FAT_SECTOR_SIZE))

/-- `writesect`. -/
def writesect (src secno : Word) : FsKern Unit := do
  Fs.disable
  let s ← get
  changing fun v => { v with disk := update v.disk secno (s.mem.sector src) }

/-- `write_sectors`. -/
def writeSectors (addr startsec : Word) (cnt : ℕ) : FsKern Unit := do
  (List.range cnt).forM fun i =>
    writesect (addr + BitVec.ofNat 32 (i * FAT_SECTOR_SIZE)) (startsec + BitVec.ofNat 32 i)
  Fs.enable

/-! ## Clusters -/

/-- The loop of the functions that move clusters: `move` is called with the place of the `i`-th
cluster in the buffer and with its sector, and the loop goes on after it if `more i`. What is
returned is the number of the last one. -/
def transferLoop (move : Word → Word → FsKern Unit) (buf : Word) (more : ℕ → Bool) :
    ℕ → ℕ → Word → FsKern ℕ
  | 0, _, _ => throw .loops
  | n + 1, i, clust => do
    move (buf + BitVec.ofNat 32 (i * FAT_SECTOR_SIZE))
      (clust + BitVec.ofNat 32 FAT_DATA_REGION_START - 2)
    Fs.enable
    let (next, flag) ← fat12NextSector clust
    if flag && more i then transferLoop move buf more n (i + 1) next else return i

/-- `fat12_read_clusters`, with what is stored at `buf`. -/
def fat12ReadClustersTo (buf cstart : Word) : FsKern ℕ :=
  transferLoop (readSectorsTo · · 1) buf (fun _ => true) rounds 0 cstart

/-- `fat12_write_clusters`. -/
def fat12WriteClusters (buf cstart : Word) : FsKern ℕ :=
  transferLoop (writeSectors · · 1) buf (fun _ => true) rounds 0 cstart

/-- The number of clusters that `numBytes` bytes take. -/
def clustersOf (numBytes : Word) : ℕ :=
  if numBytes.toNat % FAT_SECTOR_SIZE = 0 then numBytes.toNat / FAT_SECTOR_SIZE
  else numBytes.toNat / FAT_SECTOR_SIZE + 1

/-- `fat12_read_bytes`. The loop may go round as often as `n` says, and no more often than that
where the table does not end it. -/
def fat12ReadBytes (buf cstart numBytes : Word) : FsKern ℕ :=
  let n := clustersOf numBytes
  transferLoop (readSectorsTo · · 1) buf (fun i => !decide (i + 1 > n)) (rounds + n) 0 cstart

/-- `fat12_write_bytes`. -/
def fat12WriteBytes (buf cstart numBytes : Word) : FsKern ℕ :=
  let n := clustersOf numBytes
  transferLoop (writeSectors · · 1) buf (fun i => !decide (i + 1 > n)) (rounds + n) 0 cstart

/-! ## What the loop visits -/

variable {s s' : Fs} {c buf : Word} {cs : List FatIdx} {fat : FatIdx → Word} {more : ℕ → Bool}
  {i n k : ℕ} {E : Halt → Fs → Prop}

/-- The clusters that the loop visits from `c` on, the first one with the number `i`. -/
def visitLoop (fat : FatIdx → Word) (more : ℕ → Bool) : ℕ → ℕ → Word → Except Halt (List FatIdx)
  | 0, _, _ => .error .loops
  | n + 1, i, c =>
    match fatIdx c with
    | none => .error (.fault .bounds)
    | some j =>
      if Stops (fat j) ∨ more i = false then .ok [j]
      else (visitLoop fat more n (i + 1) (fat j)).map (j :: ·)

theorem visitLoop_true (n i : ℕ) (c : Word) :
    visitLoop fat (fun _ => true) n i c = followLoop fat n c := by
  induction n generalizing i c with
  | zero => rfl
  | succ n ih =>
    rw [visitLoop, followLoop]
    cases fatIdx c with
    | none => rfl
    | some j => simp only [ih, reduceCtorEq, or_false]

theorem visitLoop_chain (h : FatChain fat c cs) (hn : cs.length ≤ n) :
    visitLoop fat (fun i => !decide (i + 1 > k)) n i c = .ok (cs.take (k - i + 1)) := by
  induction cs generalizing i n c with
  | nil => exact absurd rfl h.ne_nil
  | cons j cs ih =>
    obtain ⟨n, rfl⟩ : ∃ m, n = m + 1 := Nat.exists_eq_succ_of_ne_zero (by
      rw [List.length_cons] at hn
      omega)
    rw [visitLoop, h.head]
    by_cases hik : i < k
    · obtain ⟨m, hm⟩ : ∃ m, k - i = m + 1 := ⟨k - i - 1, by omega⟩
      have hrest : k - (i + 1) + 1 = k - i := by omega
      have hmore : (!decide (i + 1 > k)) = true := by
        simpa using Nat.succ_le_of_lt hik
      rcases h.cases_head with ⟨hs, rfl⟩ | ⟨hs, hc⟩
      · simp only [hs, true_or, if_true, hm, List.take_succ_cons, List.take_nil]
      · simp only [hs, hmore, reduceCtorEq, or_self, if_false]
        rw [ih hc (Nat.le_of_succ_le_succ hn), hrest]
        rfl
    · have hmore : (!decide (i + 1 > k)) = false := by
        simpa using Nat.lt_succ_of_le (not_lt.mp hik)
      have hzero : k - i = 0 := by omega
      simp only [hmore, or_true, if_true, hzero, Nat.zero_add, List.take_succ_cons, List.take_zero]

/-! ## What the loop does -/

/-- The number of the sector of a cluster. -/
def sectorNo (j : FatIdx) : Word := BitVec.ofNat 32 j + BitVec.ofNat 32 FAT_DATA_REGION_START - 2

theorem clusterSector_eq (disk : Word → Sector) (j : FatIdx) :
    clusterSector disk j = disk (sectorNo j) := rfl

/-- The code `move` has the effect `f` and leaves the table alone. -/
structure Transfers (move : Word → Word → FsKern Unit) (f : Word → Word → Fs → Fs) : Prop where
  ends : ∀ addr sec s (Q : Unit → Fs → Prop) E, Ends (move addr sec) s Q E ↔ Q () (f addr sec s)
  fat : ∀ addr sec s, (f addr sec s).fat = s.fat

/-- The place of the `i`-th cluster in the buffer. -/
def place (buf : Word) (i : ℕ) : Word := buf + BitVec.ofNat 32 (i * FAT_SECTOR_SIZE)

/-- The clusters `cs` have been moved, the first one with the number `i`. -/
def Fs.transferred (f : Word → Word → Fs → Fs) (buf : Word) : ℕ → List FatIdx → Fs → Fs
  | _, [], s => s
  | i, j :: cs, s =>
    Fs.transferred f buf (i + 1) cs ((f (place buf i) (sectorNo j) s).setFlag true)

theorem transferLoop_ends {move : Word → Word → FsKern Unit} {f : Word → Word → Fs → Fs}
    (h : Transfers move f) : Ends (transferLoop move buf more n i c) s
      (fun k s' => ∃ cs, visitLoop s.fat more n i c = .ok cs ∧ k + 1 = i + cs.length ∧
        s' = s.transferred f buf i cs)
      (fun e _ => visitLoop s.fat more n i c = .error e) := by
  induction n generalizing i c s with
  | zero => exact (ends_throw _).mpr rfl
  | succ n ih =>
    simp only [transferLoop, ends_bind, h.ends, ends_fsEnable, ends_fat12NextSector]
    set s₁ := (f (buf + BitVec.ofNat 32 (i * FAT_SECTOR_SIZE))
      (c + BitVec.ofNat 32 FAT_DATA_REGION_START - 2) s).setFlag true with hs₁
    have hfat : s₁.fat = s.fat := h.fat _ _ s
    refine ⟨fun j hj => ?_, fun hj => by rw [visitLoop, hj]⟩
    have hmoved : s₁ = (f (place buf i) (sectorNo j) s).setFlag true := by
      rw [hs₁, eq_of_fatIdx hj]
      rfl
    rw [hfat, ends_ite]
    refine ⟨fun hgo => ?_, fun hstop => (ends_pure _).mpr ⟨[j], ?_, rfl, hmoved⟩⟩
    · have hgo : ¬ (Stops (s.fat j) ∨ more i = false) := by simpa using hgo
      have hvisit : visitLoop s.fat more (n + 1) i c =
          (visitLoop s.fat more n (i + 1) (s.fat j)).map (j :: ·) := by
        rw [visitLoop, hj]
        exact if_neg hgo
      rw [hvisit]
      have hrest := ih (s := s₁) (i := i + 1) (c := s.fat j)
      rw [hfat] at hrest
      refine hrest.mono ?_ ?_
      · rintro k s' ⟨cs, hcs, hk, rfl⟩
        refine ⟨j :: cs, by rw [hcs]; rfl, by rw [hk, List.length_cons]; omega, ?_⟩
        rw [hmoved]
        rfl
      · intro e s' he
        rw [he]
        rfl
    · have hstop : Stops (s.fat j) ∨ more i = false := by
        by_contra hno
        exact hstop (by simpa using hno)
      rw [visitLoop, hj]
      exact if_pos hstop

/-! ## Reading and writing -/

/-- The buffer of the drive. -/
def driveBuffer : Set Word := span TMP_USER_ADDR FAT_SECTOR_SIZE

theorem store_of_notMem {m : Mem} {a x : Word} {l : List Byte} (h : x ∉ span a l.length) :
    m.store a l x = m x := by
  unfold Mem.store
  rw [List.getElem?_eq_none (not_lt.mp h)]
  rfl

theorem store_of_lt {m : Mem} {a : Word} {l : List Byte} (hl : l.length ≤ 2 ^ 32) (h : k < l.length) :
    m.store a l (a + BitVec.ofNat 32 k) = l[k] := by
  have hoff : (a + BitVec.ofNat 32 k - a).toNat = k := (toNat_sub_eq_iff (h.trans_le hl)).mpr rfl
  unfold Mem.store
  rw [hoff, List.getElem?_eq_getElem h, Option.getD_some]

theorem store_ofFn {x : Bytes n} (hn : n ≤ 2 ^ 32) (m : Mem) (a : Word) (k : Fin n) :
    m.store a (List.ofFn x) (a + BitVec.ofNat 32 k) = x k := by
  have hlen : (List.ofFn x).length = n := List.length_ofFn
  rw [store_of_lt (hlen.trans_le hn) (k.isLt.trans_eq hlen.symm), List.getElem_ofFn]

theorem sector_store (m : Mem) (a : Word) (x : Sector) : (m.store a (List.ofFn x)).sector a = x :=
  funext fun k => store_ofFn (by decide) m a k

/-- A sector has been read to `addr`. -/
def Fs.readTo (addr secno : Word) (s : Fs) : Fs :=
  (s.sectorRead TMP_USER_ADDR secno).setMem
    ((s.sectorRead TMP_USER_ADDR secno).mem.memcpy addr TMP_USER_ADDR FAT_SECTOR_SIZE)

/-- A sector has been written from `addr`. -/
def Fs.writtenFrom (addr secno : Word) (s : Fs) : Fs :=
  ((s.setFlag false).change fun v =>
    { v with disk := update v.disk secno (s.mem.sector addr) }).setFlag true

theorem transfers_read : Transfers (readSectorsTo · · 1) Fs.readTo where
  ends addr sec s Q E := by
    have hsec : sec + BitVec.ofNat 32 0 = sec := BitVec.add_zero sec
    change Ends (do
      (do
        let _ ← readsect TMP_USER_ADDR (sec + BitVec.ofNat 32 0)
        modify fun s => s.setMem (s.mem.memcpy addr TMP_USER_ADDR (1 * FAT_SECTOR_SIZE)))
      pure ()) s Q E ↔ _
    simp only [ends_bind, ends_readsect, ends_modify, ends_pure, hsec, Nat.one_mul]
    rfl
  fat _ _ _ := rfl

theorem transfers_write : Transfers (writeSectors · · 1) Fs.writtenFrom where
  ends addr sec s Q E := by
    have hsec : sec + BitVec.ofNat 32 0 = sec := BitVec.add_zero sec
    have haddr : addr + BitVec.ofNat 32 (0 * FAT_SECTOR_SIZE) = addr := BitVec.add_zero addr
    change Ends (do
      (do
        writesect (addr + BitVec.ofNat 32 (0 * FAT_SECTOR_SIZE)) (sec + BitVec.ofNat 32 0)
        pure ())
      Fs.enable) s Q E ↔ _
    simp only [writesect, ends_bind, ends_fsDisable, ends_get, ends_changing, ends_pure,
      ends_fsEnable, hsec, haddr]
    rfl
  fat _ _ _ := rfl

end AdvancedOS
