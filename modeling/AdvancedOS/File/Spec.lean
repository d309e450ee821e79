import AdvancedOS.Fat.Volume
import AdvancedOS.File.Code

/-!
# What the calls do

* `creates`, `removes`: the file that a call enters and the entry that it marks, read off the state
  before the call;
* `effect`: the volume after the call;
* `fsStep_volume`: **every call that returns leaves this volume**, and the directory as it was;
* `ends_doFopen`: what opening a stream does to the slots.
-/

namespace AdvancedOS

variable {s s' : Fs} {op : FsOp} {fp : FileIdx} {pname mode : CStr}

/-- The size and the name of the file that a call enters. -/
def creates (s : Fs) : FsOp → Option (ℤ × CStr)
  | .create _ size name => some (size, name)
  | .cp src dst => (findRoot s.rootDir src).map fun i => ((s.rootDir i).fileLength.toInt, dst)
  | .fclose fp =>
    if (s.fileList fp).mode = modeW then some ((s.fileList fp).pos, (s.fileList fp).name) else none
  | _ => none

/-- The entry of the root directory that a call marks. -/
def removes (s : Fs) : FsOp → Option RootIdx
  | .rm filename => removed filename s
  | _ => none

/-- The volume after a call. -/
def effect (s : Fs) (op : FsOp) : Volume :=
  match creates s op with
  | some (size, name) => s.volume.create size (name.before 0x2E) (extensionOf name s)
  | none => (removes s op).elim s.volume fun i => s.volume.remove i

/-! ## Streams -/

/-- `do_fopen` has taken the slot `i` and returned `r`: the position in the slot is the old one. -/
structure Opened (i : FileIdx) (mode : CStr) (s : Fs) (r : Option FileIdx) (s' : Fs) : Prop where
  volume : s'.volume = s.volume
  currDir : s'.currDir = s.currDir
  other : ∀ j, j ≠ i → s'.fileList j = s.fileList j
  pos : (s'.fileList i).pos = (s.fileList i).pos
  mode : r = some i ∧ (s'.fileList i).mode = mode ∨
    r = none ∧ (s'.fileList i).mode = (s.fileList i).mode ∧ mode ≠ modeW

/-- What is in the slot `i` before, apart from its position and its mode, does not matter. -/
theorem Opened.of_change {i : FileIdx} {f : FILE} {s₁ : Fs} {r : Option FileIdx}
    (hp : f.pos = (s.fileList i).pos) (hm : f.mode = (s.fileList i).mode)
    (h₁ : BuffersOnly (s.change (·.setFile i f)) s₁) (h : Opened i mode s₁ r s') :
    Opened i mode s r s' := by
  have hl : s₁.fileList = Function.update s.fileList i f := h₁.fileList
  have hi : s₁.fileList i = f := by rw [hl, Function.update_self]
  refine ⟨h.volume.trans h₁.volume, h.currDir.trans h₁.currDir, fun j hj => ?_, ?_, ?_⟩
  · rw [h.other j hj, hl, Function.update_of_ne hj]
  · rw [h.pos, hi, hp]
  · rw [← hm, ← hi]
    exact h.mode

theorem ends_openMissing (i : FileIdx) :
    Ends (openMissing i mode) s (Opened i mode s) fun _ _ => True := by
  simp only [openMissing, setMode, changeFile, ends_ite, ends_bind, ends_changing, ends_pure,
    ends_outOfBounds, ends_throw, implies_true, and_true]
  refine ⟨fun _ _ => ?_, fun hw _ => ?_⟩
  · refine ⟨rfl, rfl, fun j hj => Function.update_of_ne hj _ _, ?_, .inl ⟨rfl, ?_⟩⟩
    · simp
    · simp
  · exact ⟨rfl, rfl, fun _ _ => rfl, rfl, .inr ⟨rfl, rfl, hw⟩⟩

theorem ends_openExisting (i : FileIdx) (fe : FileEntry) :
    Ends (openExisting i mode fe) s (Opened i mode s) fun _ _ => True := by
  simp only [openExisting, setMode, changeFile, ends_ite, ends_bind, ends_changing, ends_pure,
    ends_outOfBounds, implies_true, and_true]
  intro _
  refine ends_fat12ReadClusters (fun cs _ => fun _ => ?_) fun _ _ _ _ => trivial
  refine ⟨rfl, rfl, fun j hj => ?_, ?_, .inl ⟨rfl, ?_⟩⟩
  · simp [hj]
  · simp
  · simp

theorem ends_doFopen : Ends (doFopen pname mode) s
    (fun r s' => match unusedFile s.fileList with
      | none => r = none ∧ s' = s
      | some i => Opened i mode s r s')
    fun _ _ => True := by
  simp only [doFopen, ends_bind, ends_get]
  cases h : unusedFile s.fileList with
  | none => exact (ends_pure _).mpr ⟨rfl, rfl⟩
  | some i =>
    simp only [ends_ite, ends_bind, changeFile, ends_changing, ends_outOfBounds, implies_true,
      and_true]
    intro _
    -- the entry is looked for with the new name in the slot
    obtain ⟨s₁, hs₁⟩ : ∃ s₁ : Fs, s₁ = s.change fun v =>
      v.setFile i { v.fileList i with name := pname } := ⟨_, rfl⟩
    rw [← hs₁]
    have hopen : ∀ s₂, BuffersOnly s₁ s₂ →
        ∀ r s', Opened i mode s₂ r s' → Opened i mode s r s' := by
      intro s₂ h₂ r s' h'
      rw [hs₁] at h₂
      exact Opened.of_change (f := { s.fileList i with name := pname }) rfl rfl h₂ h'
    refine ends_fat12FindEntry (fun _ => ?_) (fun _ k _ => ?_) fun _ _ _ _ _ => trivial
    · cases findRoot s₁.rootDir pname with
      | none => exact (ends_openMissing i).mono (hopen _ (BuffersOnly.refl _)) fun _ _ h => h
      | some j =>
        simp only [Option.map_some, ends_bind, ends_get]
        exact (ends_openExisting i _).mono (hopen _ (BuffersOnly.refl _)) fun _ _ h => h
    · cases findSub (s₁.loaded k).subdir pname with
      | none => exact (ends_openMissing i).mono (hopen _ (buffersOnly_loaded k)) fun _ _ h => h
      | some j =>
        simp only [Option.map_some, ends_bind, ends_get]
        exact (ends_openExisting i _).mono (hopen _ (buffersOnly_loaded k)) fun _ _ h => h

theorem ends_put (l : List Byte) (n : ℕ) : Ends (put fp l n) s
    (fun _ s' => (s.fileList fp).pos + l.length ≤ 1024 ∧ s' = s.change (·.setFile fp
      { s.fileList fp with
        buffer := (s.fileList fp).buffer.write (s.fileList fp).pos l
        pos := (s.fileList fp).pos + n }))
    fun _ _ => ¬ (s.fileList fp).pos + l.length ≤ 1024 := by
  simp only [put, changeFile, ends_bind, ends_get, ends_ite, ends_changing, ends_outOfBounds]
  exact ⟨fun h => ⟨h, rfl⟩, id⟩

theorem ends_doFclose : Ends (doFclose fp) s
    (fun _ s' => s'.volume = effect s (.fclose fp) ∧ s'.currDir = s.currDir ∧
      s'.fileList = Function.update s.fileList fp { s.fileList fp with mode := unused })
    fun _ _ => True := by
  have hlen : unused.length < 4 := by decide
  have hrest : ∀ {v : Volume} {s₁ : Fs}, Leaves v s s₁ → Ends (do
      setMode fp unused
      Fs.enable) s₁
      (fun _ s' => s'.volume = v ∧ s'.currDir = s.currDir ∧
        s'.fileList = Function.update s.fileList fp { s.fileList fp with mode := unused })
      fun _ _ => True := by
    intro v s₁ h₁
    simp only [setMode, hlen, if_true, changeFile, ends_bind, ends_changing, ends_fsEnable]
    exact ⟨h₁.volume, h₁.currDir, by rw [← h₁.fileList]; rfl⟩
  simp only [doFclose, ends_bind, ends_get, ends_ite, effect, creates, removes]
  refine ⟨fun hw => ?_, fun hw => ?_⟩
  · rw [if_pos hw]
    exact (ends_fat12CreateFile_leaves _ _ _).mono
      (fun _ s₁ h₁ => (ends_bind _ _).mp (hrest h₁)) fun _ _ h => h
  · rw [if_neg hw]
    exact (ends_bind _ _).mp (hrest (BuffersOnly.refl s))

/-! ## Steps -/

theorem fsStep_of_ends {P : Fs → Prop} (h : Ends op.code s (fun _ s' => P s') fun _ _ => True)
    (hs : fsStep s op = some s') : P s' := by
  unfold fsStep at hs
  unfold Ends at h
  cases hr : op.code s with
  | ok a s₁ =>
    rw [hr] at hs h
    cases hs
    exact h
  | error e s₁ =>
    rw [hr] at hs
    cases hs

theorem fsStep_volume (hs : fsStep s op = some s') :
    s'.volume = effect s op ∧ s'.currDir = s.currDir := by
  refine fsStep_of_ends (P := fun s' => s'.volume = effect s op ∧ s'.currDir = s.currDir) ?_ hs
  cases op with
  | create addr size name =>
    exact (ends_fat12CreateFile_leaves addr size name).mono (fun _ s' h => ⟨h.volume, h.currDir⟩)
      fun _ _ h => h
  | cp src dst =>
    simp only [effect, creates, removes]
    refine (ends_discard _).mpr ((ends_fat12Cp src dst).mono (fun b s' h => ?_) fun _ _ h => h)
    cases hf : findRoot s.rootDir src with
    | none =>
      rw [(h.1 hf).2]
      exact ⟨rfl, rfl⟩
    | some i => exact ⟨(h.2 i hf).2.volume, (h.2 i hf).2.currDir⟩
  | rm filename =>
    refine (ends_discard _).mpr (ends_fat12Rm.mono (fun _ s' h => ?_) fun _ _ h => h)
    exact ⟨h.volume, h.currDir⟩
  | fopen pname mode =>
    refine (ends_discard _).mpr (ends_doFopen.mono (fun r s' h => ?_) fun _ _ h => h)
    cases hu : unusedFile s.fileList with
    | none =>
      rw [hu] at h
      rw [h.2]
      exact ⟨rfl, rfl⟩
    | some i =>
      rw [hu] at h
      exact ⟨h.volume, h.currDir⟩
  | fwrite buf size count fp =>
    refine (ends_discard _).mpr ?_
    simp only [doFwrite, ends_bind, ends_get, ends_ite, ends_pure]
    refine ⟨fun _ => ⟨rfl, trivial⟩, fun _ => ?_⟩
    refine (ends_put _ _).mono (fun _ s' h => ?_) fun _ _ _ => trivial
    rw [h.2]
    exact ⟨rfl, rfl⟩
  | fputs str again fp =>
    refine (ends_discard _).mpr ?_
    simp only [doFputs, ends_bind, ends_get, ends_ite, ends_pure]
    refine ⟨fun _ => ⟨rfl, trivial⟩, fun _ => ?_⟩
    refine (ends_put _ _).mono (fun _ s' h => ?_) fun _ _ _ => trivial
    rw [h.2]
    exact ⟨rfl, rfl⟩
  | fclose fp => exact ends_doFclose.mono (fun _ s' h => ⟨h.1, h.2.1⟩) fun _ _ h => h

theorem fsStep_fits (hs : fsStep s op = some s') :
    ∀ p ∈ creates s op, (newEntry s.rootDir).isSome → NameFits p.2 s := by
  refine fsStep_of_ends (P := fun _ => ∀ p ∈ creates s op, (newEntry s.rootDir).isSome →
    NameFits p.2 s) ?_ hs
  have htriv : ∀ (x : FsKern Unit), creates s op = none → Ends x s
      (fun _ _ => ∀ p ∈ creates s op, (newEntry s.rootDir).isSome → NameFits p.2 s)
      fun _ _ => True := by
    intro x hn
    rw [hn]
    unfold Ends
    split
    · exact fun p hp => (Option.not_mem_none p hp).elim
    · trivial
  cases op with
  | create addr size name =>
    refine (ends_fat12CreateFile_fits addr size name).mono (fun _ _ h p hp => ?_) fun _ _ h => h
    cases hp
    exact h
  | cp src dst =>
    simp only [FsOp.code, fat12Cp, ends_discard, ends_bind, creates]
    refine ends_fat12ReadFile (fun hf => ?_) (fun i hi cs _ => ?_) fun _ _ _ _ _ _ => trivial
    · rw [hf]
      exact (ends_pure false).mpr fun p hp => (Option.not_mem_none p hp).elim
    · simp only [ends_ite, ends_bind, ends_pure, ends_outOfBounds, implies_true, and_true, hi]
      refine fun _ => (ends_fat12CreateFile_fits _ _ _).mono (fun _ _ h p hp => ?_) fun _ _ h => h
      cases hp
      intro hn
      have hfit := h hn
      unfold NameFits at hfit ⊢
      rwa [extensionOf_readOut] at hfit
  | fclose fp =>
    simp only [FsOp.code, doFclose, ends_bind, ends_get, ends_ite, creates]
    refine ⟨fun hw => ?_, fun hw => ?_⟩
    · rw [if_pos hw]
      refine (ends_fat12CreateFile_fits _ _ _).mono (fun _ s₁ h => ?_) fun _ _ h => h
      have : ∀ p, p ∈ some (((s.fileList fp).pos : ℤ), (s.fileList fp).name) →
          (newEntry s.rootDir).isSome → NameFits p.2 s := by
        intro p hp
        cases hp
        exact h
      simp only [setMode, changeFile, ends_ite, ends_changing, ends_outOfBounds, ends_fsEnable,
        implies_true, and_true]
      exact fun _ => this
    · rw [if_neg hw]
      simp only [setMode, changeFile, ends_ite, ends_changing, ends_outOfBounds, ends_fsEnable,
        implies_true, and_true]
      exact fun _ p hp => (Option.not_mem_none p hp).elim
  | rm | fopen | fwrite | fputs => exact htriv _ rfl

end AdvancedOS
