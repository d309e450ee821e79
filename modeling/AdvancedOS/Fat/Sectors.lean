import AdvancedOS.Fat.RoundTrip

/-!
# Reading several sectors

`read_sectors` reads one sector after the other to `TMP_USER_ADDR`, and copies the whole area each
time, although only the first part of it has been read by then.

* `Staged`: what holds after `k` rounds: the first `k` sectors are in the area, and the destination
  is a copy of it;
* `Staged.step`: a round keeps it;
* `readSectorsTo_reads`: **in the end all sectors are at the destination**, and nothing outside the
  two areas has changed.
-/

namespace AdvancedOS

variable {s s₁ : Fs} {m : Mem} {addr startsec x : Word} {cnt i k n : ℕ}

/-! ## Sectors in a longer area -/

theorem span_place_subset (h : i < n) (a : Word) :
    span (place a i) FAT_SECTOR_SIZE ⊆ span a (n * FAT_SECTOR_SIZE) := by
  refine (span_add_subset _).trans (span_subset ?_)
  rw [← Nat.succ_mul]
  exact Nat.mul_le_mul_right _ h

theorem span_place_disjoint (hik : i < k) (hk : k < n) (hn : n * FAT_SECTOR_SIZE ≤ 2 ^ 32) (a : Word)
    (hx : x ∈ span (place a i) FAT_SECTOR_SIZE) : x ∉ span (place a k) FAT_SECTOR_SIZE := by
  have hi : (i + 1) * FAT_SECTOR_SIZE ≤ k * FAT_SECTOR_SIZE := Nat.mul_le_mul_right _ hik
  have hkn : (k + 1) * FAT_SECTOR_SIZE ≤ n * FAT_SECTOR_SIZE := Nat.mul_le_mul_right _ hk
  rw [Nat.succ_mul] at hi hkn
  intro hx'
  have h₁ := ((mem_span_add_iff (by omega)).mp hx).2
  have h₂ := ((mem_span_add_iff (by omega)).mp hx').1
  omega

theorem sector_memcpy {src : Word} (hn : n * FAT_SECTOR_SIZE ≤ 2 ^ 32)
    (hd : Disjoint (span addr (n * FAT_SECTOR_SIZE)) (span src (n * FAT_SECTOR_SIZE))) (hi : i < n) :
    (m.memcpy addr src (n * FAT_SECTOR_SIZE)).sector (place addr i) = m.sector (place src i) := by
  funext j
  have hj : i * FAT_SECTOR_SIZE + j < n * FAT_SECTOR_SIZE := by
    have hin : (i + 1) * FAT_SECTOR_SIZE ≤ n * FAT_SECTOR_SIZE := Nat.mul_le_mul_right _ hi
    rw [Nat.succ_mul] at hin
    have hlt := j.isLt
    omega
  have hplace : ∀ a : Word, place a i + BitVec.ofNat 32 j =
      a + BitVec.ofNat 32 (i * FAT_SECTOR_SIZE + j) := by
    intro a
    rw [place, BitVec.add_assoc, ← BitVec.ofNat_add]
  rw [Mem.sector, Mem.sector, hplace, hplace]
  unfold Mem.memcpy
  exact copyUp_of_mem hn hd hj

theorem memcpy_of_notMem {src : Word} (hn : n ≤ 2 ^ 32) (hd : Disjoint (span addr n) (span src n))
    (hx : x ∉ span addr n) : m.memcpy addr src n x = m x := by
  unfold Mem.memcpy
  exact copyUp_of_notMem hn hd hx

/-! ## The loop -/

/-- After `k` rounds. -/
structure Staged (addr startsec : Word) (cnt : ℕ) (s : Fs) (k : ℕ) (s₁ : Fs) : Prop where
  files : s₁.toFileSystem = s.toFileSystem
  staged : ∀ i < k, s₁.mem.sector (place TMP_USER_ADDR i) = s.disk (startsec + BitVec.ofNat 32 i)
  copied : 0 < k → ∀ i < cnt,
    s₁.mem.sector (place addr i) = s₁.mem.sector (place TMP_USER_ADDR i)
  frame : ∀ x, x ∉ span addr (cnt * FAT_SECTOR_SIZE) →
    x ∉ span TMP_USER_ADDR (cnt * FAT_SECTOR_SIZE) → s₁.mem x = s.mem x

theorem Staged.step (h : Staged addr startsec cnt s k s₁) (hk : k < cnt)
    (hn : cnt * FAT_SECTOR_SIZE ≤ 2 ^ 32)
    (hd : Disjoint (span addr (cnt * FAT_SECTOR_SIZE)) (span TMP_USER_ADDR (cnt * FAT_SECTOR_SIZE))) :
    Ends (do
      let _ ← readsect (TMP_USER_ADDR + BitVec.ofNat 32 (k * FAT_SECTOR_SIZE))
        (startsec + BitVec.ofNat 32 k)
      modify fun s => s.setMem (s.mem.memcpy addr TMP_USER_ADDR (cnt * FAT_SECTOR_SIZE))) s₁
      (fun _ s₂ => Staged addr startsec cnt s (k + 1) s₂) (fun _ _ => False) := by
  simp only [ends_bind, ends_readsect, ends_modify]
  have hdisk : s₁.disk = s.disk := congrArg FileSystem.disk h.files
  set m₁ := s₁.mem.store (place TMP_USER_ADDR k) (List.ofFn (s₁.disk (startsec + BitVec.ofNat 32 k)))
    with hm₁
  have hmem : ((s₁.sectorRead (TMP_USER_ADDR + BitVec.ofNat 32 (k * FAT_SECTOR_SIZE))
      (startsec + BitVec.ofNat 32 k)).mem) = m₁ := rfl
  rw [hmem]
  -- the area is not changed by the copy
  have hkeep : ∀ i < cnt, (m₁.memcpy addr TMP_USER_ADDR (cnt * FAT_SECTOR_SIZE)).sector
      (place TMP_USER_ADDR i) = m₁.sector (place TMP_USER_ADDR i) := by
    intro i hi
    refine sector_congr fun x hx => memcpy_of_notMem hn hd fun hx' => ?_
    exact hd.ne_of_mem hx' (span_place_subset hi _ hx) rfl
  have hstore : ∀ x, x ∉ span (place TMP_USER_ADDR k) FAT_SECTOR_SIZE → m₁ x = s₁.mem x := by
    intro x hx
    refine store_of_notMem fun hx' => hx ?_
    rwa [List.length_ofFn] at hx'
  refine ⟨h.files, fun i hi => ?_, fun _ i hi => ?_, fun x hx hx' => ?_⟩
  · show (m₁.memcpy _ _ _).sector _ = _
    rw [hkeep i (by omega)]
    rcases Nat.lt_succ_iff_lt_or_eq.mp hi with hik | rfl
    · rw [← h.staged i hik]
      exact sector_congr fun x hx => hstore x (span_place_disjoint hik hk hn _ hx)
    · rw [hm₁, sector_store, hdisk]
  · show (m₁.memcpy _ _ _).sector _ = (m₁.memcpy _ _ _).sector _
    rw [hkeep i hi]
    exact sector_memcpy hn hd hi
  · show m₁.memcpy _ _ _ x = _
    rw [memcpy_of_notMem hn hd hx, hstore x fun hk' => hx' (span_place_subset hk _ hk')]
    exact h.frame x hx hx'

/-- **The sectors are read to `addr`.** -/
theorem readSectorsTo_reads (addr startsec : Word) (cnt : ℕ) (s : Fs)
    (hd : Disjoint (span addr (cnt * FAT_SECTOR_SIZE)) (span TMP_USER_ADDR (cnt * FAT_SECTOR_SIZE))) :
    ∃ s', readSectorsTo addr startsec cnt s = .ok () s' ∧ s'.toFileSystem = s.toFileSystem ∧
      (∀ i < cnt, s'.mem.sector (addr + BitVec.ofNat 32 (i * FAT_SECTOR_SIZE)) =
        s.disk (startsec + BitVec.ofNat 32 i)) ∧
      ∀ x, x ∉ span addr (cnt * FAT_SECTOR_SIZE) → x ∉ span TMP_USER_ADDR (cnt * FAT_SECTOR_SIZE) →
        s'.mem x = s.mem x := by
  have hn : cnt * FAT_SECTOR_SIZE ≤ 2 ^ 32 := length_le_of_disjoint hd
  have hstart : Staged addr startsec cnt s 0 s :=
    ⟨rfl, fun i hi => absurd hi (Nat.not_lt_zero i), fun h0 => absurd h0 (lt_irrefl 0),
      fun _ _ _ => rfl⟩
  have hloop : Ends (readSectorsTo addr startsec cnt) s
      (fun _ s' => Staged addr startsec cnt s cnt s') fun _ _ => False :=
    Ends.forM_range hstart fun k hk s₁ h => h.step hk hn hd
  obtain ⟨⟨⟩, s', hs', h⟩ := exists_ok_iff.mpr hloop
  refine ⟨s', hs', h.files, fun i hi => ?_, h.frame⟩
  have hcopy : s'.mem.sector (place addr i) = s'.mem.sector (place TMP_USER_ADDR i) :=
    h.copied (Nat.zero_lt_of_lt hi) i hi
  exact hcopy.trans (h.staged i hi)

theorem readSectorsTo_reads_three :
    ∃ s', readSectorsTo 0x5000 19 3 formatted = .ok () s' ∧
      s'.toFileSystem = formatted.toFileSystem ∧
      (∀ i < 3, s'.mem.sector (0x5000 + BitVec.ofNat 32 (i * FAT_SECTOR_SIZE)) =
        formatted.disk (19 + BitVec.ofNat 32 i)) ∧
      ∀ x, x ∉ span 0x5000 (3 * FAT_SECTOR_SIZE) → x ∉ span TMP_USER_ADDR (3 * FAT_SECTOR_SIZE) →
        s'.mem x = formatted.mem x :=
  readSectorsTo_reads 0x5000 19 3 formatted
    (Set.disjoint_right.mpr fun _ hx => span_disjoint (by decide) (by decide) hx)

end AdvancedOS
