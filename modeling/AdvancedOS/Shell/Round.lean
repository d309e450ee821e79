import AdvancedOS.File.Code
import AdvancedOS.Machine.Reach
import AdvancedOS.Shell.Exec

/-!
# Lines that the shell survives

* `ends_getline`: reading a line;
* `CommandSafe`: what follows a command is what it can take;
* `survives_iff`: **a round goes through without trouble, whatever interrupts arrive, if and only if
  the line fits and its command can take what follows it**;
* `not_survives`: `cd` without the name of a directory.
-/

namespace AdvancedOS.Shell

open Stdio (LineFits lineOf lineRead_eq_ok lineRead_eq_error)

variable {s : Sys} {typed : List Byte} {α : Type} {P : Prop} {foot : Footprint} {junk : ℕ → Junk}

theorem ends_getline : Ends (getline typed) s
    (fun o s' => LineFits typed ∧ o = (lineOf typed).map (fun p => (.ofList p.1, p.2)) ∧ s' = s)
    fun e _ => ¬ Harmless e ∧ ¬ LineFits typed := by
  unfold getline
  cases hr : Stdio.lineRead typed [] with
  | ok o =>
    obtain ⟨hfits, rfl⟩ := lineRead_eq_ok.mp hr
    exact (ends_pure _).mpr ⟨hfits, rfl, rfl⟩
  | error e => exact (ends_throw _).mpr ⟨fun h => h, (lineRead_eq_error.mp hr).1⟩

theorem tells_getline_bind {f : Option (CStr × List Byte) → ShellKern α}
    (hf : Tells P (f ((lineOf typed).map fun p => (.ofList p.1, p.2))) s) :
    Tells (LineFits typed ∧ P) (getline typed >>= f) s := by
  rw [Tells, ends_bind]
  refine ends_getline.mono (fun o s' h => ?_) fun e _ he => ?_
  · obtain ⟨hfits, rfl, rfl⟩ := h
    rw [and_iff_right hfits]
    exact hf
  · exact .inr (iff_of_false he.1 fun h => he.2 h.1)

theorem tells_readDiskTest : Tells (LineFits typed) (readDiskTest typed) s := by
  rw [readDiskTest, ← and_true (LineFits typed)]
  refine tells_getline_bind ?_
  cases lineOf typed with
  | none => exact (ends_pure _).mpr trivial
  | some p =>
    refine ((ends_bind _ _).mpr ?_ : Tells True _ s)
    rw [ends_onFiles, ends_readSectors_one]
    exact (ends_pure _).mpr trivial

/-- The name that `write` uses does not fit an entry. -/
theorem not_nameSafe_test : ¬ NameSafe (some (.ofChars "test.txt".toList)) := by
  rintro ⟨x, ext, hx, -, hext, -, hlen⟩
  cases hx
  have : ext = .ofChars "txt".toList := Option.some.inj (hext.symm.trans (by decide))
  subst this
  exact absurd hlen (by decide)

theorem safeIff_write : SafeIff (newEntry s.fs.rootDir = none) (do
    let buf ← strcpyTo 1000 (some testMessage)
    fat12CreateFile buf.toList buf.length (some (.ofChars "test.txt".toList))) s := by
  have hlen : testMessage.length < 1000 := by decide
  have hiff : CreateSafe s.files (some (.ofChars "test.txt".toList)) ↔
      newEntry s.fs.rootDir = none :=
    ⟨fun h => not_not.mp fun hn => not_nameSafe_test (h hn), fun hn h => absurd hn h⟩
  rw [SafeIff, ends_bind, ends_strcpyTo]
  refine ⟨fun h => (by cases h), fun x hx => ?_⟩
  cases hx
  exact ⟨fun _ => safeIff_fat12CreateFile.congr hiff, fun h => absurd hlen h⟩

/-- The command can take what follows it. -/
def CommandSafe (foot : Footprint) (s : Sys) (junk : ℕ → Junk) (typed : List Byte) (str : CStr)
    (rest : Option CStr) : Prop :=
  if str = .ofChars "ls".toList then LsSafe s.files
  else if str = .ofChars "cd".toList then CdSafe s.files rest
  else if str = .ofChars "rm".toList then RmSafe s.files rest
  else if str = .ofChars "write".toList then newEntry s.fs.rootDir = none
  else if str = .ofChars "cp".toList then
    CpSafe s.files (strsep 0x20 rest).1 (strsep 0x20 rest).2
  else if str = .ofChars "read".toList then LineFits typed
  else if str = .ofChars "exec".toList then ExecSafe foot s junk rest
  else True

theorem tells_command {str : CStr} {rest : Option CStr} (hc : s.k.currProc = none) :
    Tells (CommandSafe foot s junk typed str rest) (command foot junk typed str rest) s := by
  have hdone : ∀ {b : Bool}, Tells True (pure b : ShellKern Bool) s := (ends_pure _).mpr trivial
  by_cases hls : str = .ofChars "ls".toList
  · subst hls
    exact safeIff_fat12Ls.tells.pure true
  by_cases hcd : str = .ofChars "cd".toList
  · subst hcd
    exact safeIff_fat12Cd.tells.pure true
  by_cases hrm : str = .ofChars "rm".toList
  · subst hrm
    exact safeIff_fat12Rm.tells.pure true
  by_cases hwrite : str = .ofChars "write".toList
  · subst hwrite
    exact safeIff_write.tells.pure true
  by_cases hcp : str = .ofChars "cp".toList
  · subst hcp
    exact safeIff_fat12Cp.tells.pure true
  by_cases hread : str = .ofChars "read".toList
  · subst hread
    exact tells_readDiskTest.pure true
  by_cases hexec : str = .ofChars "exec".toList
  · subst hexec
    exact (tells_execUserPrg hc).pure true
  -- the other commands do nothing that could go wrong
  simp only [CommandSafe, command, hls, hcd, hrm, hwrite, hcp, hread, hexec, if_false, ite_self]
  split_ifs
  all_goals exact hdone

/-- **A round goes through without trouble, whatever interrupts arrive, if and only if the line fits
and its command can take what follows it.** -/
theorem survives_iff {G : Machine → Label → Prop} {m : Machine} (h : RunsTo G m)
    (hm : m.mode = .shell) (fs : FileSystem) (foot : Footprint) (junk : ℕ → Junk)
    (typed : List Byte) :
    (∀ arrivals, Safe (terminalRound foot junk typed) ⟨m.k, fs, arrivals, []⟩) ↔
      LineFits typed ∧ ∀ line more, lineOf typed = some (line, more) →
        CommandSafe foot ⟨m.k, fs, fun _ => [], []⟩ junk more ((CStr.ofList line).before 0x20)
          (strsep 0x20 (some (.ofList line))).2 := by
  -- no process is current in the shell
  have hc : m.k.currProc = none := by
    have hfits := h.wf.fits
    rwa [show m.view.mode = .shell from hm] at hfits
  refine forall_safe_iff (s := ⟨m.k, fs, fun _ => [], []⟩) fun a => ?_
  unfold terminalRound
  refine tells_getline_bind ?_
  cases hl : lineOf typed with
  | none => exact (ends_pure _).mpr fun _ _ h => by cases h
  | some p =>
    obtain ⟨line, more⟩ := p
    have hline : (∀ line' more', some (line, more) = some (line', more') →
        CommandSafe foot ⟨m.k, fs, fun _ => [], []⟩ junk more' ((CStr.ofList line').before 0x20)
          (strsep 0x20 (some (.ofList line'))).2) ↔
        CommandSafe foot ⟨m.k, fs, fun _ => [], []⟩ junk more ((CStr.ofList line).before 0x20)
          (strsep 0x20 (some (.ofList line))).2 :=
      ⟨fun h => h line more rfl, fun h _ _ he => by cases he; exact h⟩
    rw [hline]
    exact tells_command (s := ⟨m.k, fs, a, []⟩) hc

/-- The characters of a line, up to Enter. -/
def typing (line : String) : List Byte :=
  line.toList.map (fun c => BitVec.ofNat 8 c.toNat) ++ [13]

/-- `rm x` on a drive without files. -/
theorem survives_rm : ∃ m, RunsTo anyStep.on m ∧ m.mode = .shell ∧
    ∀ foot junk arrivals, Safe (terminalRound foot junk (typing "rm x"))
      ⟨m.k, formatted.toFileSystem, arrivals, []⟩ := by
  have h : RunsTo anyStep.on (boot 0 0 fun _ => 0) := ⟨0, 0, _, .init⟩
  refine ⟨_, h, rfl, fun foot junk => (survives_iff h rfl _ foot junk _).mpr
    ⟨Stdio.lineFits_of_length (by decide), ?_⟩⟩
  intro line more hl
  have hline : lineOf (typing "rm x") = some ([0x72, 0x6D, 0x20, 0x78], []) := by decide
  cases hline.symm.trans hl
  -- nothing is found under the name
  have hname : fat12ConstructFileName (fun _ => 0) ≠ .ofChars "x".toList := by decide +kernel
  have hnone : ∀ f : Fs, f.currDir = FAT_ROOT_REGION_START → f.rootDir = formatted.rootDir →
      foundAt f (.ofChars "x".toList) = none := by
    intro f hroot hdir
    rw [foundAt, if_pos hroot, hdir, findRoot_formatted hname]
    rfl
  refine ⟨.inl rfl, .ofChars "x".toList, by decide, fun l hl => ?_⟩
  have hfiles := hnone (Sys.files ⟨(boot 0 0 fun _ => 0).k, formatted.toFileSystem, fun _ => [], []⟩)
    rfl rfl
  cases hfiles.symm.trans hl

/-- `cd` without the name of a directory. -/
theorem not_survives : ∃ m, RunsTo anyStep.on m ∧ m.mode = .shell ∧
    ∀ foot junk, ¬ ∀ arrivals, Safe (terminalRound foot junk (typing "cd"))
      ⟨m.k, formatted.toFileSystem, arrivals, []⟩ := by
  refine ⟨boot 0 0 fun _ => 0, ⟨0, 0, _, .init⟩, rfl, fun foot junk h => ?_⟩
  have hx : terminalRound foot junk (typing "cd")
      ⟨(boot 0 0 fun _ => 0).k, formatted.toFileSystem, fun _ => [], []⟩ =
        .error .null ⟨(boot 0 0 fun _ => 0).k, formatted.toFileSystem, fun _ => [], []⟩ := rfl
  exact (h fun _ => []).of_error hx

end AdvancedOS.Shell
