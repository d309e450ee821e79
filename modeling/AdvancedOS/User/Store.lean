import AdvancedOS.Fat.Transfer
import AdvancedOS.Machine.Stack
import AdvancedOS.User.Load

/-!
# What loading a program stores

* `Sys.Touches`: at most the memory in a set of addresses has changed, and who has terminated stays
  so;
* `ends_letIn_touches`: interrupts store nothing;
* `ends_loadClustersLoop_touches`, `ends_parseElf_touches`: where reading a program stores;
* `ends_readProgram_touches`: **reading a program stores in its place and in the buffer of the drive
  only, also if it is interrupted.**
-/

namespace AdvancedOS

variable {s s' : Sys} {k : Kernel} {q : Slot} {W : Set Word} {junk : Junk} {name ext : CStr}

/-- At most the memory in `W`, the flag and who is to run have changed. -/
structure Sys.Touches (W : Set Word) (s s' : Sys) : Prop where
  fs : s'.fs = s.fs
  mem : ∀ x ∉ W, s'.k.mem x = s.k.mem x
  final : ∀ i, (s.k.procList i).status = .terminated → (s'.k.procList i).status = .terminated

namespace Sys.Touches

theorem refl (W : Set Word) (s : Sys) : s.Touches W s := ⟨rfl, fun _ _ => rfl, fun _ h => h⟩

theorem trans {s'' : Sys} (h : s.Touches W s') (h' : s'.Touches W s'') : s.Touches W s'' :=
  ⟨h'.fs.trans h.fs, fun x hx => (h'.mem x hx).trans (h.mem x hx),
    fun i hi => h'.final i (h.final i hi)⟩

theorem setFiles {f : Fs} (hfs : f.toFileSystem = s.fs) (hmem : ∀ x ∉ W, f.mem x = s.k.mem x) :
    s.Touches W (s.setFiles f) := ⟨hfs, hmem, fun _ h => h⟩

end Sys.Touches

/-! ## Interrupts -/

theorem demote_mem (k : Kernel) : k.demote.mem = k.mem := by
  unfold Kernel.demote
  split
  · split
    · rfl
    · split <;> rfl
  · rfl

theorem demote_terminated {i : Slot} (h : (k.procList i).status = .terminated) :
    (k.demote.procList i).status = .terminated := by
  unfold Kernel.demote
  split
  · split
    · exact h
    · rename_i c _
      split
      · rename_i hrun
        have hic : i ≠ c := by
          rintro rfl
          rw [hrun] at h
          cases h
        simp [Kernel.setStatus, hic, h]
      · exact h
  · exact h

theorem switchTo_mem : (k.switchTo q).mem = k.mem := demote_mem k

theorem switchTo_terminated (hq : pick k.statuses = some q) {i : Slot}
    (h : (k.procList i).status = .terminated) :
    ((k.switchTo q).procList i).status = .terminated := by
  have hiq : i ≠ q := by
    rintro rfl
    exact pick_ne hq (by decide) (by decide) h
  simp [Kernel.switchTo, Kernel.enterProc, Kernel.setStatus, Kernel.setCurr, Kernel.record, hiq,
    demote_terminated h]

theorem ends_timer_touches {t : Trap} (hc : s.k.currProc = none) :
    Ends (timer t) s (fun _ s' => s.Touches W s') fun _ s' => s.Touches W s' := by
  rw [timer, ends_onKernel]
  simp only [ends_bind, ends_enable, pitHandler, ends_record, ends_disable]
  rw [ends_pitHandlerMain_none _ (by exact hc)]
  set k := ((s.k.record (.trap t.kernel)).setFlag false).clock
  refine ⟨fun _ => ⟨rfl, fun _ _ => rfl, fun _ h => h⟩, fun _ => ends_scheduleProc.mpr
    ⟨fun _ => ⟨rfl, fun _ _ => rfl, fun _ h => h⟩, fun q hq => ⟨rfl, fun x _ => ?_, ?_⟩⟩⟩
  · exact congrFun switchTo_mem x
  · exact fun i hi => switchTo_terminated (k := k.decided) hq hi

theorem ends_timers_touches (l : List Trap) (hc : s.k.currProc = none) :
    Ends (l.forM timer) s (fun _ s' => s.Touches W s') fun _ s' => s.Touches W s' := by
  induction l generalizing s with
  | nil => exact (ends_pure _).mpr (.refl W s)
  | cons t l ih =>
    change Ends (timer t >>= fun _ => l.forM timer) s _ _
    rw [ends_bind]
    refine ((ends_timer hc).and (ends_timer_touches hc)).mono ?_ fun _ _ h => h.2
    rintro - s₁ ⟨⟨hk, -⟩, ht⟩
    exact (ih (hk.currProc.trans hc)).mono (fun _ _ h => ht.trans h) fun _ _ h => ht.trans h

theorem ends_letIn_touches (hc : s.k.currProc = none) :
    Ends letIn s (fun _ s' => s.Touches W s') fun _ s' => s.Touches W s' := by
  have hpass : s.Touches W s.pass := ⟨rfl, fun _ _ => rfl, fun _ h => h⟩
  simp only [letIn, ends_bind, ends_get, ends_modify, ends_ite]
  refine ⟨fun _ => ?_, fun _ => (ends_pure _).mpr hpass⟩
  exact (ends_timers_touches (s := s.pass) _ hc).mono (fun _ _ h => hpass.trans h)
    fun _ _ h => hpass.trans h

/-! ## Reading -/

theorem ends_storeSector_touches (dst : Option Word) (i : ℕ) (x : Sector) (hW : ∀ a, dst = some a →
    span (a + BitVec.ofNat 32 (i * FAT_SECTOR_SIZE)) FAT_SECTOR_SIZE ⊆ W) :
    Ends (storeSector dst i [x]) s (fun _ s' => s.Touches W s') fun _ s' => s.Touches W s' := by
  cases dst with
  | some a =>
    rw [storeSector, ends_onFs, ends_modify, bytesOf_singleton]
    refine .setFiles rfl fun y hy => store_of_notMem fun hs => hy (hW a rfl ?_)
    rwa [List.length_ofFn] at hs
  | none =>
    rw [storeSector, ends_ite, ends_onFs, ends_outOfBounds]
    exact ⟨fun _ => (ends_pure _).mpr (.refl W s), fun _ => .setFiles rfl fun _ _ => rfl⟩

/-- **Reading clusters** stores in their places and in the buffer of the drive. -/
theorem ends_loadClustersLoop_touches (dst : Option Word) {n i : ℕ} {c : Word} {cs : List FatIdx}
    (hbuf : driveBuffer ⊆ W) (hc : s.k.currProc = none) (hr : Reads dst s.fs.fat n i c cs)
    (hW : ∀ a, dst = some a →
      span (a + BitVec.ofNat 32 (i * FAT_SECTOR_SIZE)) (cs.length * FAT_SECTOR_SIZE) ⊆ W) :
    Ends (loadClustersLoop dst n i c) s (fun _ s' => s.Touches W s') fun _ s' => s.Touches W s' := by
  induction n generalizing i c s cs with
  | zero => exact (ends_throw _).mpr (.refl W s)
  | succ n ih =>
    rw [loadClustersLoop, ends_bind, ends_onFs, ends_readSectors_one, ends_bind]
    set s₁ := s.setFiles (s.files.sectorRead TMP_USER_ADDR _)
    have h₁ : s.Touches W s₁ := .setFiles rfl fun x hx => store_of_notMem fun hs => hx (hbuf (by
      rwa [List.length_ofFn] at hs))
    have hk₁ : s.Keeps s₁ := .setFiles rfl
    -- the first cluster is a part of the places
    have hpos : 0 < cs.length := List.length_pos_of_ne_nil (followLoop_chain hr.1).ne_nil
    have hW₁ : ∀ a, dst = some a →
        span (a + BitVec.ofNat 32 (i * FAT_SECTOR_SIZE)) FAT_SECTOR_SIZE ⊆ W := fun a ha =>
      (span_subset (Nat.le_mul_of_pos_left _ hpos)).trans (hW a ha)
    refine ((ends_storeSector dst i _).and (ends_storeSector_touches dst i _ hW₁)).mono ?_
      fun _ _ h => h₁.trans h.2
    rintro - s₂ ⟨⟨hk₂, -⟩, h₂⟩
    rw [ends_bind, ends_onFs, ends_fsEnable, ends_bind]
    set s₃ := s₂.setFiles (s₂.files.setFlag true)
    have h₃ : s.Touches W s₃ := (h₁.trans h₂).trans (.setFiles rfl fun _ _ => rfl)
    have hk₃ : s.Keeps s₃ := (hk₁.trans hk₂).trans (.setFiles rfl)
    have hc₃ := hk₃.currProc.trans hc
    refine ((ends_letIn hc₃).and (ends_letIn_touches hc₃)).mono ?_ fun _ _ h => h₃.trans h.2
    rintro - s₄ ⟨⟨hk, -⟩, h⟩
    have h₄ := h₃.trans h
    have hfat : s₄.fs.fat = s.fs.fat := congrArg FileSystem.fat h₄.fs
    rw [ends_bind, ends_onFs, ends_fat12NextSector]
    refine ⟨fun j hj => ?_, fun _ => h₄⟩
    by_cases hs : Stops (s.fs.fat j)
    · have hs' : Stops (s₄.files.fat j) := by
        rw [Sys.files_toFileSystem, hfat]
        exact hs
      simp only [hs', decide_true, Bool.not_true, Bool.false_eq_true, if_false, ends_pure]
      exact h₄
    · have hs' : ¬ Stops (s₄.files.fat j) := by
        rw [Sys.files_toFileSystem, hfat]
        exact hs
      simp only [hs', decide_false, Bool.not_false, if_true, ends_bind, ends_pure]
      obtain ⟨cs', rfl, hr'⟩ := (reads_cons hj hs).mp hr
      -- the other clusters are as well
      have hW' : ∀ a, dst = some a → span (a + BitVec.ofNat 32 ((i + 1) * FAT_SECTOR_SIZE))
          (cs'.length * FAT_SECTOR_SIZE) ⊆ W := by
        intro a ha
        refine Set.Subset.trans ?_ (hW a ha)
        rw [Nat.succ_mul, BitVec.ofNat_add, ← BitVec.add_assoc, List.length_cons, Nat.succ_mul,
          Nat.add_comm (cs'.length * FAT_SECTOR_SIZE)]
        exact span_add_subset _
      exact (ih (s := s₄) ((hk₃.trans hk).currProc.trans hc)
        (by rw [Sys.files_toFileSystem, hfat]; exact hr') hW').mono
        (fun _ _ h => h₄.trans h) fun _ _ h => h₄.trans h

theorem ends_loadFile_touches {dst : Option Word} {cs : List FatIdx} (hbuf : driveBuffer ⊆ W)
    (hc : s.k.currProc = none) (hf : Found dst s.fs name cs)
    (hW : ∀ a, dst = some a → span a (cs.length * FAT_SECTOR_SIZE) ⊆ W) :
    Ends (loadFile dst name) s (fun _ s' => s.Touches W s') fun _ s' => s.Touches W s' := by
  obtain ⟨i, hi, hchain, hlen⟩ := hf
  simp only [loadFile, ends_bind, ends_get, hi, ends_pure]
  refine ends_loadClustersLoop_touches dst hbuf hc
    ⟨follow_eq_ok.mpr hchain, fun hd => by rw [Nat.zero_add]; exact hlen hd⟩ fun a ha => ?_
  rw [Nat.zero_mul, show a + BitVec.ofNat 32 0 = a from BitVec.add_zero a]
  exact hW a ha

theorem loaded_of_notMem {ph : Bytes 32} {img : BinImg} {a x : Word} {m : Mem}
    (h : x ∉ span a (Elf.loadSize ph img)) : Elf.loaded ph img a m x = m x := by
  unfold Elf.loadSize at h
  unfold Elf.loaded
  split_ifs at h ⊢
  · rfl
  · refine store_of_notMem fun hx => h (span_subset ?_ hx)
    unfold BinImg.slice
    rw [List.length_take]
    exact min_le_left _ _

theorem Loaded.unique {fs : FileSystem} {r r' : Word × Word × ℕ} (h : Loaded junk fs name ext r)
    (h' : Loaded junk fs name ext r') : r = r' := by
  have hne : comExt ≠ outExt := by decide
  cases h with
  | com hcom hf =>
    cases h' with
    | com _ hf' => rw [hf.unique hf']
    | out hout => exact absurd (hcom.symm.trans hout) hne
  | out hout hf =>
    cases h' with
    | com hcom => exact absurd (hcom.symm.trans hout) hne
    | out _ hf' => rw [hf.unique hf']

theorem ends_readProgram_touches {addr base : Word} {size : ℕ} (hbuf : driveBuffer ⊆ W)
    (hc : s.k.currProc = none) (hl : Loaded junk s.fs name ext (addr, base, size))
    (hW : span base size ⊆ W) :
    Ends (readProgram junk name ext) s (fun _ s' => s.Touches W s') fun _ s' => s.Touches W s' := by
  unfold readProgram
  cases hl with
  | com hext hf =>
    rw [if_pos hext, ends_bind]
    refine (ends_loadFile_touches hbuf hc hf fun a ha => ?_).mono (fun o s' h => ?_) fun _ _ h => h
    · cases ha
      exact hW
    · cases o <;> exact (ends_pure _).mpr h
  | @out cs hext hf hfits =>
    have hne : ext ≠ comExt := fun h => absurd (h.symm.trans hext) (by decide)
    rw [if_neg hne, if_pos hext, ends_bind]
    refine ((ends_loadFile none name hc).and (ends_loadFile_touches hbuf hc hf fun a ha => by
      cases ha)).mono (fun o s' h => ?_) fun _ _ h => h.2
    obtain ⟨⟨hk, -, ho⟩, h⟩ := h
    cases o with
    | none => exact (ends_pure _).mpr h
    | some l =>
      obtain ⟨cs', hf', rfl⟩ := ho l rfl
      cases hf.unique hf'
      simp only [ends_bind, ends_onFs]
      refine ends_parseElf.mono ?_ fun e f' h => absurd hfits h.1
      rintro e f' ⟨-, rfl, rfl⟩
      -- the segment is stored
      have hseg := h.trans (Sys.Touches.setFiles (s := s') (f := s'.files.setMem
        (Elf.loaded junk.header (programImage s.fs cs) outAddr s'.files.mem)) rfl
          fun x hx => loaded_of_notMem fun hx' => hx (hW hx'))
      refine (ends_letIn_touches (W := W) (by exact hk.currProc.trans hc)).mono
        (fun _ _ h => (ends_pure _).mpr (hseg.trans h)) fun _ _ h => hseg.trans h

/-! ## Creating the process -/

/-- The area that a process gets at an address. -/
def area (addr : Word) : Set Word := span addr PROC_SIZE.toNat

theorem stack_subset_area (addr : Word) : wordAt (addr + PROC_SIZE - 4) ⊆ area addr := by
  intro x hx
  have hx : (x - (addr + 0x10000 - 4)).toNat < 4 := hx
  change (x - addr).toNat < 0x10000
  bv_omega

/-- **Loading a program** stores in its place, in the area of the process and in the buffer of the
drive only. -/
theorem ends_loadProgram_touches {addr base : Word} {size : ℕ} (hbuf : driveBuffer ⊆ W)
    (hc : s.k.currProc = none) (hext : name.after 0x2E = some ext)
    (hl : Loaded junk s.fs name ext (addr, base, size)) (hW : span base size ⊆ W)
    (harea : area addr ⊆ W) :
    Ends (loadProgram junk name) s (fun _ s' => s.Touches W s') fun _ s' => s.Touches W s' := by
  rw [loadProgram, ends_ite]
  refine ⟨fun _ => ?_, fun _ => (ends_onFs _).mpr (ends_outOfBounds.mpr (.setFiles rfl
    fun _ _ => rfl))⟩
  rw [ends_bind, ends_onFs, ends_pointee]
  change Ends _ s _ _
  simp only [strsep, hext, Option.getD_some]
  rw [ends_bind]
  refine ((ends_readProgram junk name ext hc).and (ends_readProgram_touches hbuf hc hl hW)).mono
    (fun o s₁ h => ?_) fun _ _ h => h.2
  obtain ⟨⟨hk, -, ho⟩, h⟩ := h
  cases o with
  | none => exact (ends_pure _).mpr h
  | some r =>
    cases hl.unique (ho r rfl)
    rw [ends_bind, ends_onKernel, ends_procCreate]
    refine ⟨fun _ => h.trans ⟨rfl, fun _ _ => rfl, fun _ h => h⟩, fun i hi => ?_⟩
    rw [ends_bind, ends_modify, ends_pure]
    refine h.trans ⟨rfl, fun x hx => ?_, fun j hj => ?_⟩
    · exact write_of_notMem fun hx' => hx (harea (stack_subset_area addr hx'))
    · have hnew : (s₁.k.procList i).status = .new := by simpa using List.find?_some hi
      have hji : j ≠ i := by
        rintro rfl
        rw [hnew] at hj
        cases hj
      simpa [Kernel.spawn, Kernel.record, Sys.log, hji] using hj

end AdvancedOS
