import AdvancedOS.Fat.Create

/-!
# What deleting a file gives back

`fat12_del_fat_entry` passes the value of a table entry to `memset`, not its address.

* `Freed`: the clusters of a chain have been given back;
* `ends_delFatLoop_chain`: the loop follows the chain to its end and leaves the table as it is;
* `delete_frees_nothing`: **so no chain is ever given back**.
-/

namespace AdvancedOS

variable {s s' : Fs} {c : Word} {cs : List FatIdx} {n : ℕ}

/-- The entries of the clusters `cs` are zero, nothing else in the table or in memory has changed,
and the bytes of the table have been brought up to date. -/
structure Freed (cs : List FatIdx) (s s' : Fs) : Prop where
  zero : ∀ i ∈ cs, s'.fat i = 0
  frame : ∀ i, i ∉ cs → s'.fat i = s.fat i
  mem : s'.mem = s.mem
  rootDir : s'.rootDir = s.rootDir
  physFat : s'.physFat = encodeFat s'.fat

theorem ends_delFatLoop_chain (h : FatChain s.fat c cs) (hn : cs.length ≤ n) :
    Ends (delFatLoop n c) s (fun _ s' => s'.toFileSystem = s.toFileSystem) fun _ _ => False := by
  refine delFatLoop_ends.mono (fun _ s' hs' => hs'.2) fun e s' he => ?_
  cases he.symm.trans (h.followLoop_eq hn)

theorem exists_deleted (h : FatChain s.fat c cs) :
    ∃ s', fat12DelFatEntry c s = .ok () s' ∧ s'.fat = s.fat := by
  have hends : Ends (fat12DelFatEntry c) s (fun _ s' => s'.fat = s.fat) fun _ _ => False := by
    rw [fat12DelFatEntry, ends_bind]
    refine (ends_delFatLoop_chain h (length_lt_rounds h.nodup).le).mono (fun _ s₁ h₁ => ?_)
      fun _ _ h => h
    refine ends_fat12WriteBackFat.mono (fun _ s₂ h₂ => ?_) fun _ _ h => h
    rw [h₂, ← h₁]
  obtain ⟨⟨⟩, s', hs, hfat⟩ := exists_ok_iff.mpr hends
  exact ⟨s', hs, hfat⟩

theorem not_freed (h : FatChain s.fat c cs) (hl : ∀ i ∈ cs.getLast?, 0x0FF8 ≤ s.fat i)
    (hfat : s'.fat = s.fat) : ¬ Freed cs s s' := by
  intro hf
  obtain ⟨i, cs', rfl⟩ := List.exists_cons_of_ne_nil h.ne_nil
  refine h.ne_zero hl List.mem_cons_self ?_
  rw [← hfat]
  exact hf.zero i List.mem_cons_self

/-- **Whatever the chain, deleting it leaves the table as it is and gives back none of its clusters;
and whatever file is deleted after a file of at least one byte has been created, the table is not
what it was before.** -/
theorem delete_frees_nothing (s : Fs) :
    (∀ (c : Word) (cs : List FatIdx), FatChain s.fat c cs → (∀ i ∈ cs, 2 ≤ (i : ℕ)) →
      (∀ i ∈ cs.getLast?, 0x0FF8 ≤ s.fat i) →
        ∃ s', fat12DelFatEntry c s = .ok () s' ∧ s'.fat = s.fat ∧ ¬ Freed cs s s') ∧
    ∀ (s₁ s₂ : Fs) (addr : List Byte) (size : ℤ) (name filename : CStr) (b : Bool), 1 ≤ size →
      clustersFor size.toNat ≤ (freeClusters s.fat).length →
      fat12CreateFile addr size name s = .ok () s₁ → fat12Rm filename s₁ = .ok b s₂ →
        s₂.fat ≠ s.fat := by
  refine ⟨fun c cs h _ hl => ?_, fun s₁ s₂ addr size name filename b h1 hfree h₁ h₂ hfat => ?_⟩
  · obtain ⟨s', hs, hfat⟩ := exists_deleted h
    exact ⟨s', hs, hfat, not_freed h hl hfat⟩
  · have hpos : 0 < clustersFor size.toNat := by
      rw [clustersFor]
      omega
    have hcreate : s₁.fat = (allocate (numClusters size) s.fat).1 := by
      have h := congrArg Volume.fat ((ends_fat12CreateFile_leaves addr size name).of_ok h₁).volume
      rwa [Volume.create_fat] at h
    have hrm : s₂.fat = s₁.fat := by
      have h := congrArg Volume.fat (ends_fat12Rm.of_ok h₂).volume
      cases hr : removed filename s₁ <;> rw [hr] at h <;> exact h
    have hcard := card_changed hpos (by omega) hfree
    rw [Finset.filter_false_of_mem fun c _ => ?_, Finset.card_empty] at hcard
    · omega
    · rw [← hcreate, ← hrm, hfat]
      exact not_not_intro rfl

/-- The table of a formatted drive on which a file has cluster 2. -/
def oneCluster : Fs := formatted.change (·.setFat 2 0x0FFF)

theorem oneCluster_chain : FatChain oneCluster.fat 2 [2] := .single (by decide) (by decide)

theorem oneCluster_last : ∀ i ∈ [(2 : FatIdx)].getLast?, 0x0FF8 ≤ oneCluster.fat i := by
  rintro i ⟨⟩
  decide

/-- The file is deleted. -/
theorem delete_frees_nothing_oneCluster : ∃ s', fat12DelFatEntry 2 oneCluster = .ok () s' ∧
    s'.fat = oneCluster.fat ∧ ¬ Freed [2] oneCluster s' :=
  (delete_frees_nothing oneCluster).1 2 [2] oneCluster_chain
    (fun _ hi => (congrArg Fin.val (List.mem_singleton.mp hi)).ge) oneCluster_last

/-- Its entry is still `0x0FFF`. -/
theorem not_freed_oneCluster : FatChain oneCluster.fat 2 [2] ∧
    ∃ s', fat12DelFatEntry 2 oneCluster = .ok () s' ∧ ¬ Freed [2] oneCluster s' := by
  obtain ⟨s', hs, hfat⟩ := exists_deleted oneCluster_chain
  exact ⟨oneCluster_chain, s', hs, not_freed oneCluster_chain oneCluster_last hfat⟩

end AdvancedOS
