import AdvancedOS.Fat.Volume
import AdvancedOS.File.Code
import AdvancedOS.Machine.Reach
import AdvancedOS.Shell.Command
import AdvancedOS.User.Load

/-!
# The interrupt flag when the shell waits for a key

* `keepsOn_fat12Ls`, …: the commands of the file system return with the flag set;
* `ends_readDiskTest_off`, `ends_execUserPrg_off`: **`read` and `exec` return with the flag off**;
* `flag_set_iff`: **after a line the flag is set again if and only if the command is another one.**
-/

namespace AdvancedOS

/-! ## The file system -/

section

variable {n i j : ℕ} {c : Word} {name : CStr}

/-- Called with the flag set, the code returns with it set. -/
abbrev KeepsOn {α : Type} (x : FsKern α) : Prop :=
  Preserves (fun s : Fs => s.intFlag = true) (fun _ _ => True) x

theorem keepsOn_changing (f : FileSystem → FileSystem) : KeepsOn (changing f) :=
  .modify fun _ h => h

theorem keepsOn_pointee (o : Option CStr) : KeepsOn (pointee o) :=
  fun _ h => (ends_pointee o).mpr h

theorem keepsOn_fatEntry : KeepsOn (fatEntry c) := fun _ h =>
  ends_fatEntry.mpr ⟨fun _ _ => h, fun _ => trivial⟩

theorem keepsOn_fat12NextSector : KeepsOn (fat12NextSector c) :=
  fun _ h => ends_fat12NextSector.mpr ⟨fun _ _ => h, fun _ => trivial⟩

theorem keepsOn_readSubdir : KeepsOn (readSubdir c) :=
  fun _ _ => ends_readSubdir (fun _ _ => rfl) fun _ _ _ _ => trivial

theorem keepsOn_fat12ReadFile : KeepsOn (fat12ReadFile name) :=
  fun _ h => ends_fat12ReadFile (fun _ => h) (fun _ _ _ _ => rfl) fun _ _ _ _ _ _ => trivial

theorem keepsOn_numClusterLoop : KeepsOn (numClusterLoop n c) := by
  induction n generalizing c with
  | zero => exact .throw fun _ _ => trivial
  | succ n ih =>
    refine .bind keepsOn_fat12NextSector fun p => ?_
    exact .ite (.bind ih fun _ => .pure _) (.pure _)

theorem keepsOn_fat12ShowFileEntry (f : FileEntry) : KeepsOn (fat12ShowFileEntry f) := by
  have hnum : KeepsOn (fat12GetNumCluster (f.startCluster.setWidth 32)) :=
    .ite (.bind .get fun _ => .pure _) keepsOn_numClusterLoop
  unfold fat12ShowFileEntry
  exact .ite (.ite (.bind hnum fun _ => .pure _) (.pure _)) (.pure _)

theorem keepsOn_fat12Ls : KeepsOn fat12Ls := by
  refine .bind .get fun s => .ite (.forM (fun i => ?_) _) (.bind keepsOn_readSubdir fun _ =>
    .bind .get fun s => .forM (fun i => ?_) _)
  · exact .bind (keepsOn_fat12ShowFileEntry _) fun _ => .pure _
  · exact .bind (keepsOn_fat12ShowFileEntry _) fun _ => .pure _

theorem keepsOn_setPath (path : CStr) : KeepsOn (setPath path) :=
  .ite (keepsOn_changing _) (.throw fun _ _ => trivial)

theorem keepsOn_fat12SetDir (newDir : ℕ) (action : CStr) :
    KeepsOn (fat12SetDir newDir action) := by
  refine .bind .get fun s => .ite (.bind (keepsOn_changing _) fun _ => keepsOn_setPath _)
    (.bind (keepsOn_changing _) fun _ => .ite (.pure _) (.ite (.bind .get fun s' => ?_)
      (.bind .get fun _ => keepsOn_setPath _)))
  have hroot : ∀ {d : ℕ}, KeepsOn
      (if d = FAT_ROOT_REGION_START then setPath rootPath else pure PUnit.unit) :=
    .ite (keepsOn_setPath _) (.pure _)
  cases (strsep 0x2F (some (reverse s'.currPath))).2 with
  | some tmpPath => exact .bind (keepsOn_setPath _) fun _ => hroot
  | none => exact .bind (.modify fun _ h => h) fun _ => .bind (keepsOn_setPath _) fun _ => hroot

theorem keepsOn_fat12FindEntry : KeepsOn (fat12FindEntry name) :=
  .bind .get fun _ => .ite (.pure _) (.bind keepsOn_readSubdir fun _ => .bind .get fun _ => .pure _)

theorem keepsOn_fat12Cd : KeepsOn (fat12Cd name) := by
  refine .bind keepsOn_fat12FindEntry fun o => ?_
  cases o with
  | none => exact .pure _
  | some p =>
    exact .bind .get fun _ => .bind (keepsOn_fat12SetDir _ _) fun _ =>
      .bind keepsOn_readSubdir fun _ => .pure _

theorem keepsOn_delFatLoop : KeepsOn (delFatLoop n c) := by
  induction n generalizing c with
  | zero => exact .throw fun _ _ => trivial
  | succ n ih =>
    exact .bind keepsOn_fat12NextSector fun p => .bind keepsOn_fatEntry fun a =>
      .bind (.modify fun _ h => h) fun _ => .ite ih (.pure _)

theorem keepsOn_setPhysEntry (i : ℕ) (x : Word) : KeepsOn (setPhysEntry i x) := by
  unfold setPhysEntry
  split
  · exact keepsOn_changing _
  · exact .throw fun _ _ => trivial

theorem keepsOn_writeBackLoop : KeepsOn (writeBackLoop n i j) := by
  induction n generalizing i j with
  | zero => exact .throw fun _ _ => trivial
  | succ n ih =>
    -- the three bytes of a pair of entries
    exact .ite (.bind keepsOn_fatEntry fun _ => .bind (keepsOn_setPhysEntry _ _) fun _ =>
      .bind keepsOn_fatEntry fun _ => .bind keepsOn_fatEntry fun _ =>
      .bind (keepsOn_setPhysEntry _ _) fun _ => .bind keepsOn_fatEntry fun _ =>
      .bind (keepsOn_setPhysEntry _ _) fun _ => ih) (.pure _)

theorem keepsOn_fat12DelFatEntry : KeepsOn (fat12DelFatEntry c) :=
  .bind keepsOn_delFatLoop fun _ => keepsOn_writeBackLoop

theorem keepsOn_fat12Rm : KeepsOn (fat12Rm name) := by
  refine .bind keepsOn_fat12FindEntry fun o => ?_
  cases o with
  | none => exact .pure _
  | some p =>
    exact .bind .get fun _ => .bind (keepsOn_changing _) fun _ =>
      .bind keepsOn_fat12DelFatEntry fun _ => .pure _

theorem keepsOn_fat12CreateFile (addr : List Byte) (size : ℤ) :
    KeepsOn (fat12CreateFile addr size name) := fun _ h =>
  (ends_fat12CreateFile addr size name).mpr
    ⟨fun _ => h, fun _ _ => ⟨fun _ => h, fun _ => trivial⟩⟩

theorem keepsOn_fat12Cp (src dst : CStr) : KeepsOn (fat12Cp src dst) := by
  refine .bind keepsOn_fat12ReadFile fun o => ?_
  cases o with
  | none => exact .pure _
  | some p =>
    exact .ite (.bind (keepsOn_fat12CreateFile _ _) fun _ => .pure _) (.throw fun _ _ => trivial)

end

/-! ## `read` and `exec` -/

variable {s s' : Sys} {junk : ℕ → Junk} {j : Junk} {name ext : CStr} {list : Option CStr} {n : ℕ}

theorem ends_readDiskTest_off (num : Word) :
    Ends (readDiskTest num) s (fun _ s' => s'.k.intFlag = false) fun _ _ => True := by
  rw [readDiskTest, ends_bind, ends_onFs, ends_readSectors_one]
  exact (ends_pure _).mpr rfl

theorem ends_loadFile_none (dst : Option Word) :
    Ends (loadFile dst name) s (fun o s' => o = none → s' = s) fun _ _ => True := by
  simp only [loadFile, ends_bind, ends_get]
  cases findRoot s.fs.rootDir name with
  | none => exact (ends_pure _).mpr fun _ => rfl
  | some i =>
    rw [ends_bind]
    exact Ends.of_forall (fun _ _ => (ends_pure _).mpr fun h => by cases h) fun _ _ => trivial

theorem ends_readProgram_none :
    Ends (readProgram j name ext) s (fun o s' => o = none → s' = s) fun _ _ => True := by
  unfold readProgram
  rw [ends_ite, ends_ite]
  refine ⟨fun _ => ?_, fun _ => ⟨fun _ => ?_, fun _ => (ends_pure _).mpr fun _ => rfl⟩⟩
  all_goals
    rw [ends_bind]
    refine (ends_loadFile_none _).mono (fun o s' h => ?_) fun _ _ h => h
  · cases o with
    | none => exact (ends_pure _).mpr fun _ => h rfl
    | some l => exact (ends_pure _).mpr fun h => by cases h
  · cases o with
    | none => exact (ends_pure _).mpr fun _ => h rfl
    | some l =>
      simp only [ends_bind]
      refine Ends.of_forall (fun _ _ => ?_) fun _ _ => trivial
      exact Ends.of_forall (fun _ _ => (ends_pure _).mpr fun h => by cases h) fun _ _ => trivial

/-- Called with the flag off, the code returns with it off. -/
abbrev KeepsOff {α : Type} (x : SysKern α) : Prop :=
  Preserves (fun s : Sys => s.k.intFlag = false) (fun _ _ => True) x

theorem keepsOff_loadProgram : KeepsOff (loadProgram j name) := by
  intro s hs
  rw [loadProgram, ends_ite]
  refine ⟨fun _ => ?_, fun _ => (ends_onFs _).mpr (ends_outOfBounds.mpr trivial)⟩
  rw [ends_bind, ends_onFs, ends_pointee, ends_bind]
  refine ends_readProgram_none.mono (fun o s₁ ho => ?_) fun _ _ h => h
  cases o with
  | none =>
    refine (ends_pure _).mpr ?_
    rw [ho rfl]
    exact hs
  | some r =>
    rw [ends_bind, ends_onKernel, ends_procCreate]
    exact ⟨fun _ => trivial, fun i _ => (ends_bind _ _).mpr ((ends_modify _).mpr
      ((ends_pure _).mpr rfl))⟩

theorem keepsOff_execLoop (name rest : Option CStr) :
    KeepsOff (execLoop junk n name rest) := by
  induction n generalizing name rest with
  | zero => exact .throw fun _ _ => trivial
  | succ n ih =>
    cases name with
    | none =>
      exact fun s h => (ends_onKernel _).mpr
        (ends_scheduleProc.mpr ⟨fun _ => h, fun _ _ => trivial⟩)
    | some name => exact .bind keepsOff_loadProgram fun b => .ite (ih _ _) (.pure _)

theorem ends_execUserPrg_off :
    Ends (execUserPrg junk list) s (fun _ s' => s'.k.intFlag = false) fun _ _ => True := by
  rw [execUserPrg, ends_bind]
  refine Ends.of_forall (fun _ s₁ => ?_) fun _ _ => trivial
  rw [ends_bind, ends_onKernel, ends_disable]
  exact keepsOff_execLoop _ _ _ rfl

/-! ## A line -/

/-- A command of the file system that is called with the flag set. -/
theorem ends_onFs_on {α : Type} {x : FsKern α} (hx : KeepsOn x) (hs : s.k.intFlag = true) :
    Ends (onFs x >>= fun _ => pure true) s (fun _ s' => s'.k.intFlag = true) fun _ _ => True :=
  (ends_bind _ _).mpr ((ends_onFs x).mpr ((hx s.files hs).mono (fun _ _ h => (ends_pure _).mpr h)
    fun _ _ h => h))

theorem ends_command_on {num : Word} {str : CStr} {rest : Option CStr} (hs : s.k.intFlag = true)
    (hread : str ≠ .ofChars "read".toList) (hexec : str ≠ .ofChars "exec".toList) :
    Ends (command junk num str rest) s (fun _ s' => s'.k.intFlag = true) fun _ _ => True := by
  have hdone : ∀ {b : Bool}, Ends (pure b : SysKern Bool) s (fun _ s' => s'.k.intFlag = true)
      fun _ _ => True := (ends_pure _).mpr hs
  simp only [command, hread, hexec, if_false, ends_ite]
  refine ⟨fun _ => hdone, fun _ => ⟨fun _ => hdone, fun _ => ⟨fun _ => hdone, fun _ =>
    ⟨fun _ => ?ls, fun _ => ⟨fun _ => ?cd, fun _ => ⟨fun _ => ?rm, fun _ => ⟨fun _ => ?write,
      fun _ => ⟨fun _ => ?cp, fun _ => ⟨fun _ => hdone, fun _ => hdone⟩⟩⟩⟩⟩⟩⟩⟩⟩
  case ls => exact ends_onFs_on keepsOn_fat12Ls hs
  case cd => exact ends_onFs_on (.bind (keepsOn_pointee _) fun _ => keepsOn_fat12Cd) hs
  case rm => exact ends_onFs_on (.bind (keepsOn_pointee _) fun _ => keepsOn_fat12Rm) hs
  case write => exact ends_onFs_on (keepsOn_fat12CreateFile _ _) hs
  case cp =>
    exact ends_onFs_on (.bind (keepsOn_pointee _) fun _ => .bind (keepsOn_pointee _) fun _ =>
      keepsOn_fat12Cp _ _) hs

theorem ends_command_read {num : Word} {rest : Option CStr} :
    Ends (command junk num (.ofChars "read".toList) rest) s (fun _ s' => s'.k.intFlag = false)
      fun _ _ => True := by
  change Ends (readDiskTest num >>= fun _ => pure true) s _ _
  rw [ends_bind]
  exact (ends_readDiskTest_off num).mono (fun _ _ h => (ends_pure _).mpr h) fun _ _ h => h

theorem ends_command_exec {num : Word} {rest : Option CStr} :
    Ends (command junk num (.ofChars "exec".toList) rest) s (fun _ s' => s'.k.intFlag = false)
      fun _ _ => True := by
  change Ends (execUserPrg junk rest >>= fun _ => pure true) s _ _
  rw [ends_bind]
  exact ends_execUserPrg_off.mono (fun _ _ h => (ends_pure _).mpr h) fun _ _ h => h

/-- **After a line the flag is set again, when `getline` is called, if and only if the command is
another one than `read` and `exec`.** -/
theorem flag_set_iff (junk : ℕ → Junk) (num : Word) (str : CStr) (hs : s.k.intFlag = true)
    (h : runLine junk num str s = .ok true s') : s'.k.intFlag = true ↔
      str.before 0x20 ≠ .ofChars "read".toList ∧ str.before 0x20 ≠ .ofChars "exec".toList := by
  unfold runLine at h
  by_cases hread : str.before 0x20 = .ofChars "read".toList
  · rw [hread] at h
    have hoff := ends_command_read.of_ok h
    exact iff_of_false (hoff ▸ Bool.false_ne_true) fun h' => h'.1 hread
  by_cases hexec : str.before 0x20 = .ofChars "exec".toList
  · rw [hexec] at h
    have hoff := ends_command_exec.of_ok h
    exact iff_of_false (hoff ▸ Bool.false_ne_true) fun h' => h'.2 hexec
  · exact iff_of_true ((ends_command_on hs hread hexec).of_ok h) ⟨hread, hexec⟩

/-- The command `help`. -/
theorem flag_set_iff_help : ∃ m, RunsTo anyStep.on m ∧ m.mode = .shell ∧ ∀ junk, ∃ s',
    runLine junk 0 (.ofChars "help".toList) ⟨m.k, formatted.toFileSystem, fun _ => [], []⟩ =
      .ok true s' ∧
    (s'.k.intFlag = true ↔
      (CStr.ofChars "help".toList).before 0x20 ≠ .ofChars "read".toList ∧
      (CStr.ofChars "help".toList).before 0x20 ≠ .ofChars "exec".toList) := by
  refine ⟨boot 0 0 fun _ => 0, ⟨0, 0, _, .init⟩, rfl, fun junk => ?_⟩
  have h : runLine junk 0 (.ofChars "help".toList)
      ⟨(boot 0 0 fun _ => 0).k, formatted.toFileSystem, fun _ => [], []⟩ =
        .ok true ⟨(boot 0 0 fun _ => 0).k, formatted.toFileSystem, fun _ => [], []⟩ := rfl
  exact ⟨_, h, flag_set_iff junk 0 _ rfl h⟩

/-- A program that does not exist. -/
theorem flag_off : ∃ m, RunsTo anyStep.on m ∧ m.mode = .shell ∧ m.k.intFlag = true ∧
    ∀ junk, ∃ s', runLine junk 0 (.ofChars "exec a.b".toList)
      ⟨m.k, formatted.toFileSystem, fun _ => [], []⟩ = .ok true s' ∧ s'.k.intFlag = false :=
  ⟨boot 0 0 fun _ => 0, ⟨0, 0, _, .init⟩, rfl, rfl, fun _ => ⟨_, rfl, rfl⟩⟩

end AdvancedOS
