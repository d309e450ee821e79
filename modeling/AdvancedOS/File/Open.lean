import AdvancedOS.File.Spec
import AdvancedOS.Fat.Cd

/-!
# Opening a file

What `do_fopen` reads, and when it comes to return, where a slot is free.

* `Openable`: the name and the mode fit, and what is read can be followed and fits;
* `OpenedOn`: the slot that is returned holds the clusters of the file that is found;
* `ends_fopen`: **`do_fopen` returns exactly where this is so.**
-/

namespace AdvancedOS

variable {s s' : Fs} {i : FileIdx} {fe : FileEntry} {cs : List FatIdx} {pname mode : CStr}
  {o : Option FileIdx}

/-- There is room for the name and the mode, the current directory can be read, and so can the file
that is found; if there is none the mode is one of the two. -/
structure Openable (s : Fs) (pname mode : CStr) : Prop where
  nameFits : pname.length < 32
  modeFits : mode.length < 4
  readable : Readable s
  missing : foundAt s pname = none → mode = modeW ∨ mode = modeR
  chain : ∀ l ∈ foundAt s pname, ∃ cs, s.volume.Chain l cs ∧ cs.length ≤ 2

/-- The call returns `o`, and with a file that is found the slot `i` holds its clusters then. -/
structure OpenedOn (s : Fs) (pname mode : CStr) (i : FileIdx) (o : Option FileIdx) (s' : Fs) :
    Prop where
  missing : foundAt s pname = none → (o = none ↔ mode ≠ modeW)
  found : ∀ l ∈ foundAt s pname, o = some i ∧ ∃ cs, s.volume.Chain l cs ∧
    bytesOf (cs.map (clusterSector s.disk)) <+: List.ofFn (s'.fileList i).buffer

theorem ends_openMissing_iff (i : FileIdx) : Ends (openMissing i mode) s
    (fun o _ => mode.length < 4 ∧ (mode = modeW ∨ mode = modeR) ∧ (o = none ↔ mode ≠ modeW))
    fun _ _ => ¬ (mode = modeW ∨ mode = modeR) := by
  have hW : modeW.length < 4 := by decide
  have hR : modeR.length < 4 := by decide
  have hRW : modeR ≠ modeW := by decide
  simp only [openMissing, setMode, changeFile, ends_ite, ends_bind, ends_changing, ends_pure,
    ends_outOfBounds, ends_throw]
  refine ⟨fun hw => ⟨fun hlen => ⟨hlen, .inl hw, by simp [hw]⟩, fun hlen => ?_⟩, fun hw =>
    ⟨fun hr => ⟨hr ▸ hR, .inr hr, by simp [hw]⟩, fun hr => by simp [hw, hr]⟩⟩
  exact absurd (hw ▸ hW) hlen

theorem ends_openExisting_iff (i : FileIdx) (fe : FileEntry) : Ends (openExisting i mode fe) s
    (fun o s' => mode.length < 4 ∧ o = some i ∧
      ∃ cs, FatChain s.fat (fe.startCluster.setWidth 32) cs ∧ cs.length ≤ 2 ∧
        bytesOf (cs.map (clusterSector s.disk)) <+: List.ofFn (s'.fileList i).buffer)
    fun _ _ => ¬ (mode.length < 4 ∧
      ∃ cs, FatChain s.fat (fe.startCluster.setWidth 32) cs ∧ cs.length ≤ 2) := by
  simp only [openExisting, setMode, changeFile, ends_ite, ends_bind, ends_changing, ends_pure,
    ends_outOfBounds]
  refine ⟨fun hmode => ?_, fun hmode hn => hmode hn.1⟩
  refine ends_fat12ReadClusters (fun cs hcs => ?_) fun e s' he _ hn => ?_
  · rw [List.length_map]
    refine ⟨fun hlen => ⟨hmode, trivial, cs, hcs, hlen, ?_⟩, fun hlen hn => ?_⟩
    · rw [Fs.change_toFileSystem, FileSystem.setFile_fileList, Function.update_self]
      refine Bytes.isPrefix_write ?_ _
      rw [length_bytesOf, List.length_map]
      exact Nat.mul_le_mul_right FAT_SECTOR_SIZE hlen
    · obtain ⟨cs', hcs', hlen'⟩ := hn.2
      exact hlen (hcs.unique hcs' ▸ hlen')
  · obtain ⟨cs', hcs', -⟩ := hn.2
    cases he.symm.trans (follow_eq_ok.mpr hcs')

theorem ends_fopen (hi : unusedFile s.fileList = some i) : Ends (doFopen pname mode) s
    (fun o s' => Openable s pname mode ∧ OpenedOn s pname mode i o s')
    fun _ _ => ¬ Openable s pname mode := by
  simp only [doFopen, ends_bind, ends_get, hi, ends_ite, changeFile, ends_changing,
    ends_outOfBounds]
  refine ⟨fun hname => ?_, fun hname h => hname h.nameFits⟩
  -- the new name in the slot does not matter for the search
  obtain ⟨s₁, hs₁⟩ : ∃ s₁ : Fs, s₁ = s.change fun v =>
    v.setFile i { v.fileList i with name := pname } := ⟨_, rfl⟩
  have hv : s₁.volume = s.volume := by rw [hs₁]; rfl
  have hread : Readable s₁ ↔ Readable s := by rw [hs₁]; exact Iff.rfl
  have hfound : foundAt s₁ pname = foundAt s pname := by rw [hs₁]; rfl
  rw [← hs₁]
  refine ends_search_readable.mono ?_ fun _ _ hr h => hr (hread.mpr h.readable)
  rintro p s₂ ⟨hr, hb, hp⟩
  rw [hfound, hv] at hp
  have hv₂ : s₂.volume = s.volume := hb.volume.trans hv
  have hfat : s₂.fat = s.fat := congrArg Volume.fat hv₂
  have hdisk : s₂.disk = s.disk := congrArg Volume.disk hv₂
  cases p with
  | none =>
    have hnone : foundAt s pname = none := Option.map_eq_none_iff.mp hp.symm
    refine (ends_openMissing_iff i).mono ?_ fun _ _ hm h => hm (h.missing hnone)
    rintro o s' ⟨hlen, hm, ho⟩
    refine ⟨⟨hname, hlen, hread.mp hr, fun _ => hm, fun l hl => ?_⟩, fun _ => ho, fun l hl => ?_⟩
    · cases hnone.symm.trans hl
    · cases hnone.symm.trans hl
  | some p =>
    obtain ⟨l, hl, hent⟩ := Option.map_eq_some_iff.mp hp.symm
    simp only [ends_bind, ends_get]
    refine (ends_openExisting_iff i _).mono (fun o s' => ?_) fun _ _ hn h => hn ⟨h.modeFits, ?_⟩
    · rintro ⟨hlen, ho, cs, hcs, htwo, hbuf⟩
      rw [hfat, ← hent] at hcs
      rw [hdisk] at hbuf
      refine ⟨⟨hname, hlen, hread.mp hr, fun hn => ?_, fun l' hl' => ?_⟩, fun hn => ?_,
        fun l' hl' => ?_⟩
      · cases hl.symm.trans hn
      · cases hl.symm.trans hl'
        exact ⟨cs, hcs, htwo⟩
      · cases hl.symm.trans hn
      · cases hl.symm.trans hl'
        exact ⟨ho, cs, hcs, hbuf⟩
    · rw [hfat, ← hent]
      exact h.chain l hl

end AdvancedOS
