import AdvancedOS.Fat.Spec
import AdvancedOS.Lib.Packing

/-!
# Encoding and decoding the file allocation table

* `decodeFat`, `encodeFat`: what the loops compute, as functions of the whole table;
* `ends_convertLoop`, `ends_writeBackLoop`: **the loops stay within the arrays and compute it**;
* `FatReached`: the states that `fat12_init` and `fat12_create_file` lead to, whose entries have
  twelve bits;
* `fat_codec`: **encoding and decoding are inverse.**
-/

namespace AdvancedOS

open Function (update)

variable {s s' : Fs} {fat : FatIdx → Word} {n k i j : ℕ} {E : Halt → Fs → Prop}
  {Q : Unit → Fs → Prop}

/-- The table as a function on all numbers. -/
def tableAt (fat : FatIdx → Word) (j : ℕ) : Word :=
  if h : j < FAT_NUM_ENTRY then fat ⟨j, h⟩ else 0

/-- The table that `fat12_init` makes of the bytes. -/
def decodeFat (phys : Bytes (FAT_PHYS_SIZE * FAT_SECTOR_SIZE)) : FatIdx → Word := fun j =>
  Packing.unpack phys.get j

/-- The bytes that `fat12_write_back_fat` makes of the table. -/
def encodeFat (fat : FatIdx → Word) : Bytes (FAT_PHYS_SIZE * FAT_SECTOR_SIZE) := fun i =>
  Packing.pack (tableAt fat) i

/-- Every entry has twelve bits. -/
def TwelveBit (fat : FatIdx → Word) : Prop := ∀ i, (fat i).toNat < 0x1000

theorem tableAt_fin (i : FatIdx) : tableAt fat i = fat i := dif_pos i.isLt

theorem tableAt_of_lt {j : ℕ} (h : j < FAT_NUM_ENTRY) : tableAt fat j = fat ⟨j, h⟩ := dif_pos h

theorem get_encodeFat {i : ℕ} (h : i < FAT_PHYS_SIZE * FAT_SECTOR_SIZE) :
    (encodeFat fat).get i = Packing.pack (tableAt fat) i := Bytes.get_of_lt h

theorem decodeFat_twelveBit (phys : Bytes (FAT_PHYS_SIZE * FAT_SECTOR_SIZE)) :
    TwelveBit (decodeFat phys) := fun _ => Packing.unpack_lt

theorem encode_decode (phys : Bytes (FAT_PHYS_SIZE * FAT_SECTOR_SIZE)) :
    encodeFat (decodeFat phys) = phys := by
  have htable : tableAt (decodeFat phys) = Packing.unpack phys.get := by
    funext j
    by_cases h : j < FAT_NUM_ENTRY
    · exact tableAt_of_lt h
    · -- past the end of both arrays everything is zero
      have hj : 3072 ≤ j := Nat.not_lt.mp h
      have hz : ∀ i, 4608 ≤ i → phys.get i = 0 := fun i hi => dif_neg (Nat.not_lt.mpr hi)
      rw [tableAt, dif_neg h, Packing.unpack]
      split_ifs
      · rw [hz _ (by omega), hz _ (by omega)]
        decide
      · rw [hz _ (by omega), hz _ (by omega)]
        decide
  funext i
  rw [encodeFat, htable, Packing.pack_unpack, Bytes.get_fin]

theorem decode_encode (h : TwelveBit fat) : decodeFat (encodeFat fat) = fat := by
  have h12 : ∀ j, (tableAt fat j).toNat < 0x1000 := by
    intro j
    unfold tableAt
    split_ifs
    · exact h _
    · decide
  have hsize : FAT_PHYS_SIZE * FAT_SECTOR_SIZE = 4608 := rfl
  funext j
  have hj : (j : ℕ) < 3072 := j.isLt
  have htab : tableAt fat j = fat j := tableAt_fin j
  rw [← htab, ← Packing.unpack_pack (j := j) h12]
  change Packing.unpack _ _ = _
  unfold Packing.unpack
  rw [get_encodeFat (by omega), get_encodeFat (by omega), get_encodeFat (by omega)]

/-! ## The loops -/

theorem ends_convertLoop (hi : i = 3 * k) (hj : j = 2 * k) (hn : 1536 < n + k) (hk : k ≤ 1536)
    (hinv : ∀ j : FatIdx, (j : ℕ) < 2 * k → s.fat j = decodeFat s.physFat j) :
    Ends (convertLoop n i j) s
      (fun _ s' => s'.toFileSystem = { s.toFileSystem with fat := decodeFat s.physFat }) E := by
  induction n generalizing i j k s with
  | zero => omega
  | succ n ih =>
    have hphys : FAT_PHYS_SIZE * FAT_SECTOR_SIZE = 4608 := rfl
    have hfat : FAT_NUM_ENTRY = 3072 := rfl
    subst hi hj
    rw [convertLoop]
    by_cases hlt : k < 1536
    · have h0 : 3 * k < FAT_PHYS_SIZE * FAT_SECTOR_SIZE := by omega
      have h1 : 3 * k + 1 < FAT_PHYS_SIZE * FAT_SECTOR_SIZE := by omega
      have h2 : 3 * k + 2 < FAT_PHYS_SIZE * FAT_SECTOR_SIZE := by omega
      have j0 : 2 * k < FAT_NUM_ENTRY := by omega
      have j1 : 2 * k + 1 < FAT_NUM_ENTRY := by omega
      rw [if_pos (show 3 * k < 4608 by omega)]
      simp only [ends_bind, ends_physEntry h0, ends_physEntry h1, ends_physEntry h2,
        ends_setFatEntry j0, ends_setFatEntry j1]
      refine (ih (k := k + 1) (by omega) (by omega) (by omega) hlt fun j hj => ?_).mono
        (fun _ s' hs' => hs') ?_
      · -- the two entries of this round
        have hd0 : decodeFat s.physFat ⟨2 * k, j0⟩ =
            Packing.fst (s.physFat ⟨3 * k, h0⟩) (s.physFat ⟨3 * k + 1, h1⟩) := by
          rw [decodeFat, Packing.unpack_even, Bytes.get_of_lt h0, Bytes.get_of_lt h1]
        have hd1 : decodeFat s.physFat ⟨2 * k + 1, j1⟩ =
            Packing.snd (s.physFat ⟨3 * k + 1, h1⟩) (s.physFat ⟨3 * k + 2, h2⟩) := by
          rw [decodeFat, Packing.unpack_odd, Bytes.get_of_lt h1, Bytes.get_of_lt h2]
        by_cases e1 : j = ⟨2 * k + 1, j1⟩
        · subst e1
          simpa [Packing.snd] using hd1.symm
        · by_cases e0 : j = ⟨2 * k, j0⟩
          · subst e0
            simpa [Packing.fst] using hd0.symm
          · have n1 : (j : ℕ) ≠ 2 * k + 1 := fun e => e1 (Fin.ext e)
            have n0 : (j : ℕ) ≠ 2 * k := fun e => e0 (Fin.ext e)
            simpa [e0, e1] using hinv j (by omega)
      · exact fun _ _ h => h
    · rw [if_neg (show ¬ 3 * k < 4608 by omega)]
      have hall : s.fat = decodeFat s.physFat := by
        funext j
        have hj : (j : ℕ) < 3072 := j.isLt
        exact hinv j (by omega)
      rw [ends_pure, ← hall]

theorem ends_writeBackLoop (hi : i = 3 * k) (hj : j = 2 * k) (hn : 1536 < n + k)
    (hk : k ≤ 1536)
    (hinv : ∀ i : Fin (FAT_PHYS_SIZE * FAT_SECTOR_SIZE), (i : ℕ) < 3 * k →
      s.physFat i = encodeFat s.fat i) :
    Ends (writeBackLoop n i j) s
      (fun _ s' => s'.toFileSystem = { s.toFileSystem with physFat := encodeFat s.fat }) E := by
  induction n generalizing i j k s with
  | zero => omega
  | succ n ih =>
    have hphys : FAT_PHYS_SIZE * FAT_SECTOR_SIZE = 4608 := rfl
    have hfat : FAT_NUM_ENTRY = 3072 := rfl
    subst hi hj
    rw [writeBackLoop]
    by_cases hlt : k < 1536
    · have h0 : 3 * k < FAT_PHYS_SIZE * FAT_SECTOR_SIZE := by omega
      have h1 : 3 * k + 1 < FAT_PHYS_SIZE * FAT_SECTOR_SIZE := by omega
      have h2 : 3 * k + 2 < FAT_PHYS_SIZE * FAT_SECTOR_SIZE := by omega
      have j0 : 2 * k < FAT_NUM_ENTRY := by omega
      have j1 : 2 * k + 1 < FAT_NUM_ENTRY := by omega
      rw [if_pos (show 2 * k < 3072 by omega)]
      simp only [ends_bind, ends_fatEntry_ofNat j0, ends_fatEntry_ofNat j1,
        ends_setPhysEntry h0, ends_setPhysEntry h1, ends_setPhysEntry h2]
      refine (ih (k := k + 1) (by omega) (by omega) (by omega) hlt fun i hi => ?_).mono
        (fun _ s' hs' => hs') ?_
      · -- the three bytes of this round
        have hd0 : encodeFat s.fat ⟨3 * k, h0⟩ = Packing.byte0 (s.fat ⟨2 * k, j0⟩) := by
          rw [encodeFat, Packing.pack_first, tableAt_of_lt j0]
        have hd1 : encodeFat s.fat ⟨3 * k + 1, h1⟩ =
            Packing.byte1 (s.fat ⟨2 * k, j0⟩) (s.fat ⟨2 * k + 1, j1⟩) := by
          rw [encodeFat, Packing.pack_second, tableAt_of_lt j0, tableAt_of_lt j1]
        have hd2 : encodeFat s.fat ⟨3 * k + 2, h2⟩ = Packing.byte2 (s.fat ⟨2 * k + 1, j1⟩) := by
          rw [encodeFat, Packing.pack_third, tableAt_of_lt j1]
        by_cases e2 : i = ⟨3 * k + 2, h2⟩
        · subst e2
          simpa [Packing.byte2] using hd2.symm
        · by_cases e1 : i = ⟨3 * k + 1, h1⟩
          · subst e1
            simpa [Packing.byte1] using hd1.symm
          · by_cases e0 : i = ⟨3 * k, h0⟩
            · subst e0
              simpa [Packing.byte0] using hd0.symm
            · have n2 : (i : ℕ) ≠ 3 * k + 2 := fun e => e2 (Fin.ext e)
              have n1 : (i : ℕ) ≠ 3 * k + 1 := fun e => e1 (Fin.ext e)
              have n0 : (i : ℕ) ≠ 3 * k := fun e => e0 (Fin.ext e)
              simpa [e0, e1, e2] using hinv i (by omega)
      · exact fun _ _ h => h
    · rw [if_neg (show ¬ 2 * k < 3072 by omega)]
      have hall : s.physFat = encodeFat s.fat := by
        funext i
        have hi : (i : ℕ) < 4608 := i.isLt
        exact hinv i (by omega)
      rw [ends_pure, ← hall]

theorem lt_rounds : 1536 < rounds + 0 := by
  rw [rounds, FAT_NUM_ENTRY]
  omega

theorem ends_fat12WriteBackFat : Ends fat12WriteBackFat s
    (fun _ s' => s'.toFileSystem = { s.toFileSystem with physFat := encodeFat s.fat }) E := by
  exact ends_writeBackLoop (k := 0) rfl rfl lt_rounds (by omega)
    fun _ hi => absurd hi (Nat.not_lt_zero _)

theorem ends_convertFat : Ends convertFat s
    (fun _ s' => s'.toFileSystem = { s.toFileSystem with fat := decodeFat s.physFat }) E := by
  exact ends_convertLoop (k := 0) rfl rfl lt_rounds (by omega)
    fun _ hj => absurd hj (Nat.not_lt_zero _)

/-! ## Reachable tables -/

/-- The states that `fat12_init` and, after it, `fat12_create_file` lead to. -/
inductive FatReached : Fs → Prop
  | init {s s' : Fs} : fat12Init s = .ok () s' → FatReached s'
  | create {s s' : Fs} (addr : List Byte) (size : ℤ) (name : CStr) : FatReached s →
      fat12CreateFile addr size name s = .ok () s' → FatReached s'

theorem createLoop_twelveBit {numCluster : ℤ} {l : List FatIdx} {cnt cstart : ℕ}
    {prev : Option FatIdx} (h : TwelveBit fat) :
    TwelveBit (createLoop numCluster l cnt prev cstart fat).1 := by
  have hupdate : ∀ {f : FatIdx → Word} (i : FatIdx) {x : Word}, TwelveBit f → x.toNat < 0x1000 →
      TwelveBit (update f i x) := by
    intro f i x hf hx j
    by_cases hj : j = i
    · subst hj
      simpa using hx
    · simpa [hj] using hf j
  induction l generalizing cnt cstart prev fat with
  | nil => exact h
  | cons i l ih =>
    have hlink : TwelveBit (linkPrev prev i fat) := by
      cases prev with
      | none => exact h
      | some p =>
        refine hupdate p h ?_
        have hi : (i : ℕ) < 3072 := i.isLt
        rw [BitVec.toNat_ofNat]
        omega
    by_cases h0 : fat i = 0
    · simp only [createLoop, h0, if_true]
      by_cases hn : ((cnt + 1 : ℕ) : ℤ) = numCluster
      · rw [if_pos hn]
        exact hupdate i hlink (by decide)
      · rw [if_neg hn]
        exact ih hlink
    · simp only [createLoop, h0, if_false]
      exact ih h

theorem allocate_twelveBit (numCluster : ℤ) (h : TwelveBit fat) :
    TwelveBit (allocate numCluster fat).1 := by
  unfold allocate
  exact createLoop_twelveBit h

theorem FatReached.twelveBit (h : FatReached s) : TwelveBit s.fat := by
  induction h with
  | @init s s' h =>
    have hpost : Ends fat12Init s (fun _ s' => TwelveBit s'.fat) fun _ _ => True := by
      simp only [fat12Init, ends_bind, ends_changing]
      refine ends_readSectors _ _ fun s₁ _ => ends_readSectors _ _ fun s₂ _ => ?_
      refine ends_convertFat.mono (fun _ s₃ h₃ => ?_) fun _ _ h => h
      have hfat : TwelveBit s₃.fat := by
        rw [h₃]
        exact decodeFat_twelveBit _
      refine ends_readSectors _ _ ?_
      intro s₄ h₄
      rw [← h₄] at hfat
      simp only [Fs.change_toFileSystem]
      exact hfat
    exact hpost.of_ok h
  | @create s s' addr size name _ h ih =>
    have hpost : Ends (fat12CreateFile addr size name) s (fun _ s' => TwelveBit s'.fat)
        fun _ _ => True := by
      rw [ends_fat12CreateFile]
      have hfat : TwelveBit (s.allocated size).fat := by
        rw [Fs.allocated_fat]
        exact allocate_twelveBit _ ih
      exact ⟨fun _ => hfat, fun i _ => ⟨fun _ => hfat, fun _ => trivial⟩⟩
    exact hpost.of_ok h

/-! ## The result -/

/-- **The encoder and the decoder of the file allocation table are inverse: neither indexes outside
its arrays, decoding any bytes and encoding the result yields the bytes, and encoding a table whose
entries have twelve bits and decoding the result yields the table. Every table that `fat12_init` and
`fat12_create_file` lead to is one of those.** -/
theorem fat_codec :
    (∀ s : Fs, ∃ s₁ s₂, convertFat s = .ok () s₁ ∧
      fat12WriteBackFat s₁ = .ok () s₂ ∧ s₂.physFat = s.physFat) ∧
    (∀ s : Fs, ∃ s₁ s₂, fat12WriteBackFat s = .ok () s₁ ∧
      convertFat s₁ = .ok () s₂ ∧
      (TwelveBit s.fat → s₂.fat = s.fat)) ∧
    ∀ s : Fs, FatReached s → TwelveBit s.fat := by
  refine ⟨fun s => ?_, fun s => ?_, fun s => FatReached.twelveBit⟩
  · obtain ⟨⟨⟩, s₁, he₁, h₁⟩ := exists_ok_iff.mpr (ends_convertFat (s := s))
    obtain ⟨⟨⟩, s₂, he₂, h₂⟩ := exists_ok_iff.mpr (ends_fat12WriteBackFat (s := s₁))
    refine ⟨s₁, s₂, he₁, he₂, ?_⟩
    rw [h₂, h₁]
    exact encode_decode s.physFat
  · obtain ⟨⟨⟩, s₁, he₁, h₁⟩ := exists_ok_iff.mpr (ends_fat12WriteBackFat (s := s))
    obtain ⟨⟨⟩, s₂, he₂, h₂⟩ := exists_ok_iff.mpr (ends_convertFat (s := s₁))
    refine ⟨s₁, s₂, he₁, he₂, fun h => ?_⟩
    rw [h₂, h₁]
    exact decode_encode h

end AdvancedOS
