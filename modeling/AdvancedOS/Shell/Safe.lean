import AdvancedOS.Fat.Gone
import AdvancedOS.Fat.Listing
import AdvancedOS.Shell.Code
import AdvancedOS.Stdio.Input
import AdvancedOS.User.Load

/-!
# Commands of the file system that go through

* `Harmless`, `Safe`: the code returns, is left for a process, or goes round without a store for ever;
* `SafeIff`: it is safe exactly under a condition, by the rules for `Ends`;
* `LsSafe`, `CdSafe`, `RmSafe`, `CreateSafe`, `CpSafe`: the states and the arguments that the commands
  can take;
* `safeIff_fat12Ls`, …: **a command is safe exactly with these.**
-/

namespace AdvancedOS.Shell

variable {s s' : Sys} {α β : Type}

/-! ## Trouble -/

/-- No string and no array is at fault, and nothing outside the tables has been looked at. -/
def Harmless : Trouble → Prop
  | .null | .overrun | .stop (.exit (.fault _)) | .stop (.halt (.fault _)) => False
  | .stop _ => True

/-- The code is not in trouble in the end. -/
def Safe (x : ShellKern α) (s : Sys) : Prop := Ends x s (fun _ _ => True) fun e _ => Harmless e

/-- The code is safe exactly if `P` holds. -/
def SafeIff (P : Prop) (x : ShellKern α) (s : Sys) : Prop :=
  Ends x s (fun _ _ => P) fun e _ => Harmless e ↔ P

theorem harmless_halt {e : Halt} : Harmless (.stop (.halt e)) ↔ e = .loops := by
  cases e <;> simp [Harmless]

theorem SafeIff.congr {P P' : Prop} {x : ShellKern α} (h : SafeIff P x s) (hP : P ↔ P') :
    SafeIff P' x s := propext hP ▸ h

theorem SafeIff.pure {P : Prop} {x : ShellKern α} (h : SafeIff P x s) (b : β) :
    SafeIff P (x >>= fun _ => Pure.pure b) s := by
  unfold SafeIff
  rw [ends_bind]
  exact Ends.mono h (fun _ _ h => (ends_pure _).mpr h) fun _ _ h => h

/-! ### The rules -/

section

variable {Q : α → Sys → Prop} {E : Trouble → Sys → Prop}

theorem ends_onSys (x : SysKern α) :
    Ends (onSys x) s Q E ↔ Ends x s Q fun e s' => E (.stop e) s' := ends_onPart ..

theorem ends_onFiles (x : FsKern α) :
    Ends (onFiles x) s Q E ↔ Ends x s.files (fun a f => Q a (s.setFiles f))
      fun e f => E (.stop (.halt e)) (s.setFiles f) := by
  rw [onFiles, ends_onSys, ends_onFs]

theorem ends_onReads (x : SysKern α) : Ends (onReads x) s Q E ↔
    Ends x s Q fun e s' => E (if e = .halt .loops then .overrun else .stop e) s' := ends_onPart ..

theorem not_harmless_reads (e : Halt) :
    ¬ Harmless (if Stop.halt e = .halt .loops then .overrun else .stop (.halt e)) := by
  cases e with
  | loops => exact fun h => h
  | fault f => exact fun h => h

theorem ends_reads {x : FsKern α} (h : Ends x s.files (fun a f => Q a (s.setFiles f))
    fun _ f => ∀ e, ¬ Harmless e → E e (s.setFiles f)) : Ends (onReads (onFs x)) s Q E := by
  rw [ends_onReads, ends_onFs]
  exact h.mono (fun _ _ h => h) fun e _ h => h _ (not_harmless_reads e)

end

section

variable {Q : CStr → Sys → Prop} {E : Trouble → Sys → Prop} {n : ℕ} {o : Option CStr} {x y : CStr}

theorem ends_strArg : Ends (strArg o) s Q E ↔ (o = none → E .null s) ∧ ∀ x, o = some x → Q x s := by
  cases o <;> simp [strArg]

theorem ends_strcpyTo : Ends (strcpyTo n o) s Q E ↔ (o = none → E .null s) ∧
    ∀ x, o = some x → (x.length < n → Q x s) ∧ (¬ x.length < n → E .overrun s) := by
  simp only [strcpyTo, ends_bind, ends_strArg, ends_ite, ends_pure, ends_throw]

theorem ends_strcatTo : Ends (strcatTo n x y) s Q E ↔
    (x.length + y.length < n → Q (strcat x y) s) ∧
      (¬ x.length + y.length < n → E .overrun s) := by
  rw [strcatTo, ends_strcpyTo, ← length_strcat]
  simp

end

/-! ## Looking for an entry -/

/-- **The search** goes through if the directory can be read and there is a name. -/
theorem ends_fat12FindEntry {folder : Option CStr} : Ends (fat12FindEntry folder) s
    (fun p s' => Readable s.files ∧ BuffersOnly s.files s'.files ∧ ∃ x, folder = some x ∧
      p.map s'.fs.entryAt = (foundAt s.files x).map s.files.volume.entry)
    fun e _ => ¬ Harmless e ∧ ∀ x, Readable s.files → folder ≠ some x := by
  simp only [fat12FindEntry, ends_bind, ends_get, ends_ite, ends_strArg, ends_pure]
  refine ⟨fun hroot => ⟨?_, ?_⟩, fun hne => ?_⟩
  · rintro rfl
    exact ⟨fun h => h, fun _ _ h => by cases h⟩
  · rintro x rfl
    refine ⟨.inl hroot, .refl _, x, rfl, ?_⟩
    rw [foundAt, if_pos (show s.files.currDir = _ from hroot), Option.map_map, Option.map_map]
    rfl
  · refine ends_reads (ends_readSubdir (fun c hc => ⟨?_, ?_⟩) fun _ _ hno _ e he => ⟨he, ?_⟩)
    · rintro rfl
      exact ⟨fun h => h, fun _ _ h => by cases h⟩
    · rintro x rfl
      refine ⟨.inr ⟨c, hc⟩, buffersOnly_loaded c, x, rfl, ?_⟩
      rw [foundAt, if_neg (show s.files.currDir ≠ _ from hne),
        show fatIdx (BitVec.ofNat 32 s.files.currDir) = some c from hc.head, Option.bind_some,
        Option.map_map, Option.map_map]
      rfl
    · rintro x (hroot | ⟨c, hc⟩) -
      · exact hne hroot
      · exact hno c hc

/-! ## `ls` -/

/-- The entries can be shown one after the other: directories can be counted, or the count goes on for
ever. -/
def ListSafe (fat : FatIdx → Word) : List FileEntry → Prop
  | [] => True
  | e :: l => (Shown e → Counted fat e ∨ Endless fat (e.startCluster.setWidth 32)) ∧
      ((Shown e → Counted fat e) → ListSafe fat l)

/-- `ls` can show the current directory. -/
def LsSafe (s : Fs) : Prop := Readable s ∧ ListSafe s.fat ((scanned s).map s.volume.entry)

theorem ends_listed {ι : Type} (f : ι → FileEntry) (l : List ι) {fs : Fs} :
    Ends (l.forM fun i => do let _ ← fat12ShowFileEntry (f i)) fs
      (fun _ _ => ListSafe fs.fat (l.map f)) fun e _ => e = .loops ↔ ListSafe fs.fat (l.map f) := by
  induction l with
  | nil => exact (ends_pure _).mpr trivial
  | cons i l ih =>
    rw [forM_show_cons, ends_bind, List.map_cons, ListSafe]
    refine (ends_show (f i)).mono ?_ fun e _ he => ?_
    · rintro b _ ⟨-, rfl, hc⟩
      rw [and_iff_right fun hs => .inl (hc hs), imp_iff_right hc]
      exact ih
    · obtain ⟨hs, hc, hl⟩ := he
      have hno : ¬ (Shown (f i) → Counted fs.fat (f i)) := fun h => hc (h hs)
      rw [hl, imp_iff_right hs, or_iff_right hc, and_iff_left fun h => absurd h hno]

theorem safeIff_fat12Ls : SafeIff (LsSafe s.files) fat12Ls s := by
  simp only [SafeIff, fat12Ls, ends_bind, ends_get, ends_ite, ends_onFiles, harmless_halt]
  refine ⟨fun hroot => ?_, fun hne => ?_⟩
  · have hscan : scanned s.files = (List.finRange FAT_NUM_ROOT_ENTRY).map .root :=
      if_pos (show s.files.currDir = _ from hroot)
    rw [LsSafe, and_iff_right (show Readable s.files from .inl hroot), hscan, List.map_map]
    exact ends_listed _ _
  · refine ends_reads (ends_readSubdir (fun c hc => ?_) fun _ _ hno _ e he => ?_)
    · have hscan : scanned s.files = (List.finRange FAT_NUM_DIR_ENTRY).map (.sub c) := by
        rw [scanned, if_neg (show s.files.currDir ≠ _ from hne),
          show fatIdx (BitVec.ofNat 32 s.files.currDir) = some c from hc.head, Option.elim_some]
      rw [LsSafe, and_iff_right (show Readable s.files from .inr ⟨c, hc⟩), hscan, List.map_map]
      exact ends_listed _ _
    · refine iff_of_false he fun h => ?_
      rcases h.1 with hroot | ⟨c, hc⟩
      · exact hne hroot
      · exact hno c hc

/-! ## `cd` -/

/-- `curr_path` has room for the name of the directory, and for `..` it has a slash. What stands
before the slash fits whenever `curr_path` holds a string of less than 50 characters. -/
def PathFits (s : Fs) (folder : CStr) : Prop :=
  s.currDir = FAT_ROOT_REGION_START ∨ folder = dot ∨
    (folder = dotDot ∧ ∃ path, (reverse s.currPath).after slash = some path ∧ path.length < 50) ∨
    (folder ≠ dotDot ∧ s.currPath.length + 1 + folder.length < 50)

/-- `cd` can take its argument: the directory can be searched for it, and if it is found the path has
room for it and it is a directory of one cluster. -/
def CdSafe (s : Fs) (folder : Option CStr) : Prop :=
  Readable s ∧ ∃ x, folder = some x ∧
    ∀ l ∈ foundAt s x, PathFits s x ∧ ∃ c, s.volume.Chain l [c]

theorem length_reverse (x : CStr) : (reverse x).length = x.length := List.length_reverse

theorem ends_setDir_fits {n : ℕ} {x : CStr} {f : Fs}
    (hx : f.currDir = FAT_ROOT_REGION_START → x.length < 49) (h : PathFits f x) :
    Ends (AdvancedOS.fat12SetDir n x) f (fun _ f' => f'.fat = f.fat) fun _ _ => False := by
  have h1 : rootPath.length = 1 := by decide
  simp only [AdvancedOS.fat12SetDir, ends_bind, ends_get, ends_ite, ends_changing, ends_setPath,
    ends_pure]
  refine ⟨fun hroot => ⟨fun _ => rfl, fun hn => hn ?_⟩, fun hne => ⟨fun _ => rfl, fun hdot =>
    ⟨fun hdd => ?_, fun hdd => ⟨fun _ => rfl, fun hn => hn ?_⟩⟩⟩⟩
  · rw [length_strcat, h1]
    have := hx hroot
    omega
  · rcases h with hroot | hd | ⟨-, path, hp, hlt⟩ | ⟨hn, -⟩
    · exact absurd hroot hne
    · exact absurd hd hdot
    · generalize ho : (strsep 0x2F (some (reverse _))).2 = o
      obtain rfl : o = some path := ho.symm.trans hp
      have hlen : (reverse path).length < 50 := (length_reverse path).trans_lt hlt
      have hroot : rootPath.length < 50 := by decide
      simp only [ends_bind, ends_setPath, ends_ite, ends_pure]
      exact ⟨fun _ => ⟨fun _ => ⟨fun _ => rfl, fun hn => hn hroot⟩, fun _ => rfl⟩, fun hn => hn hlen⟩
    · exact absurd hdd hn
  · rcases h with hroot | hd | ⟨hd, -⟩ | ⟨-, hlt⟩
    · exact absurd hroot hne
    · exact absurd hd hdot
    · exact absurd hd hdd
    · rw [length_strcat, length_strcat, h1]
      exact hlt

/-- **`fat12_set_dir`** goes through if the path has room. -/
theorem ends_fat12SetDir {n : ℕ} {x : CStr}
    (hx : s.fs.currDir = FAT_ROOT_REGION_START → x.length < 49) : Ends (fat12SetDir n x) s
      (fun _ s' => PathFits s.files x ∧ s'.fs.fat = s.fs.fat)
      fun e _ => ¬ Harmless e ∧ ¬ PathFits s.files x := by
  have h1 : rootPath.length = 1 := by decide
  have hfiles : s.files.currDir = s.fs.currDir := rfl
  have hrest : PathFits s.files x → Ends (onFiles (AdvancedOS.fat12SetDir n x)) s
      (fun _ s' => PathFits s.files x ∧ s'.fs.fat = s.fs.fat)
      fun e _ => ¬ Harmless e ∧ ¬ PathFits s.files x := fun h => (ends_onFiles _).mpr <|
    (ends_setDir_fits (f := s.files) hx h).mono (fun _ _ hf => ⟨h, hf⟩) fun _ _ hf => hf.elim
  simp only [fat12SetDir, ends_bind, ends_get, ends_ite, ends_strcatTo, ends_strArg, ends_strcpyTo]
  refine ⟨fun hroot => ⟨fun _ => hrest (.inl hroot), fun hn => ?_⟩, fun hne =>
    ⟨fun hdot => hrest (.inr (.inl hdot)), fun (hdot : x ≠ dot) =>
      ⟨fun (hdd : x = dotDot) => ?_, fun (hdd : x ≠ dotDot) => ?_⟩⟩⟩
  · have := hx hroot
    omega
  · -- for `..` it depends on what is before the slash
    have hiff : PathFits s.files x ↔
        ∃ path, (reverse s.fs.currPath).after slash = some path ∧ path.length < 50 := by
      rw [PathFits, hfiles, or_iff_right hne, or_iff_right hdot, or_iff_left fun h => h.1 hdd]
      exact and_iff_right hdd
    refine ⟨fun hnone => ⟨fun h => h, fun h => ?_⟩, fun path hpath => ⟨fun h => (by cases h), ?_⟩⟩
    · obtain ⟨path, hp, -⟩ := hiff.mp h
      cases hp.symm.trans hnone
    · intro y hy
      cases hy
      rw [length_reverse]
      refine ⟨fun hlt => hrest (hiff.mpr ⟨path, hpath, hlt⟩), fun hlt => ⟨fun h => h, fun h => ?_⟩⟩
      obtain ⟨path', hp, hlt'⟩ := hiff.mp h
      cases hp.symm.trans hpath
      exact hlt hlt'
  · have hiff : PathFits s.files x ↔ s.fs.currPath.length + 1 + x.length < 50 := by
      rw [PathFits, hfiles, or_iff_right hne, or_iff_right hdot, or_iff_right fun h => hdd h.1]
      exact and_iff_right hdd
    rw [length_strcat, h1]
    refine ⟨fun _ => ⟨fun hlt => hrest (hiff.mpr hlt), fun hlt => ⟨fun h => h, ?_⟩⟩,
      fun hlt => ⟨fun h => h, fun h => hlt ?_⟩⟩
    · exact fun h => hlt (hiff.mp h)
    · exact (Nat.le_add_right _ _).trans_lt (hiff.mp h)

theorem safeIff_fat12Cd {folder : Option CStr} :
    SafeIff (CdSafe s.files folder) (fat12Cd folder) s := by
  rw [SafeIff, fat12Cd, ends_bind]
  refine ends_fat12FindEntry.mono (fun p s₁ hp => ?_) fun e _ he => ?_
  swap
  · exact iff_of_false he.1 fun h => h.2.elim fun x hx => he.2 x h.1 hx.1
  obtain ⟨hread, hb, x, rfl, hp⟩ := hp
  have hiff : CdSafe s.files (some x) ↔
      ∀ l ∈ foundAt s.files x, PathFits s.files x ∧ ∃ c, s.files.volume.Chain l [c] := by
    rw [CdSafe, and_iff_right hread]
    simp
  rw [hiff]
  cases hl : foundAt s.files x with
  | none =>
    rw [hl] at hp
    obtain rfl : p = none := by simpa using hp
    exact (ends_pure _).mpr fun l hl => by cases hl
  | some l =>
    rw [hl, Option.map_some] at hp
    obtain ⟨q, rfl, hq⟩ := Option.map_eq_some_iff.mp hp
    have hpath : PathFits s₁.files x ↔ PathFits s.files x := by
      unfold PathFits
      rw [hb.currDir, hb.currPath]
    have hshort : s₁.fs.currDir = FAT_ROOT_REGION_START → x.length < 49 := by
      intro hroot
      rw [foundAt, if_pos (show s.files.currDir = _ from hb.currDir.symm.trans hroot)] at hl
      obtain ⟨i, hi, -⟩ := Option.map_eq_some_iff.mp hl
      exact (length_of_findRoot hi).trans_lt (by decide)
    simp only [ends_bind, ends_get, ends_strArg, ends_pure, hq, Option.mem_def, Option.some.injEq,
      forall_eq', reduceCtorEq, false_implies, true_and]
    refine (ends_fat12SetDir hshort).mono (fun _ s₂ h₂ => ?_) fun e _ he => ?_
    · have hchain : ∀ c, FatChain s₂.files.fat ((s.files.volume.entry l).startCluster.setWidth 32)
          [c] ↔ s.files.volume.Chain l [c] := by
        intro c
        rw [show s₂.files.fat = s.files.volume.fat from h₂.2.trans hb.fat]
        rfl
      rw [and_iff_right (hpath.mp h₂.1)]
      refine ends_reads (ends_readSubdir (fun c hc => ⟨c, (hchain c).mp hc⟩) fun _ _ hno _ e he =>
        iff_of_false he ?_)
      rintro ⟨c, hc⟩
      exact hno c ((hchain c).mpr hc)
    · exact iff_of_false he.1 fun h => he.2 (hpath.mpr h.1)

/-! ## `rm` -/

/-- `rm` can take its argument: the directory can be searched for it, and if it is found its chain can
be followed, if only for ever. -/
def RmSafe (s : Fs) (filename : Option CStr) : Prop :=
  Readable s ∧ ∃ x, filename = some x ∧ ∀ l ∈ foundAt s x, (∃ cs, s.volume.Chain l cs) ∨
    Endless s.fat ((s.volume.entry l).startCluster.setWidth 32)

theorem safeIff_fat12Rm {filename : Option CStr} :
    SafeIff (RmSafe s.files filename) (fat12Rm filename) s := by
  rw [SafeIff, fat12Rm, ends_bind]
  refine ends_fat12FindEntry.mono (fun p s₁ hp => ?_) fun e _ he => ?_
  swap
  · exact iff_of_false he.1 fun h => h.2.elim fun x hx => he.2 x h.1 hx.1
  obtain ⟨hread, hb, x, rfl, hp⟩ := hp
  have hiff : RmSafe s.files (some x) ↔
      ∀ l ∈ foundAt s.files x, (∃ cs, s.files.volume.Chain l cs) ∨
        Endless s.files.fat ((s.files.volume.entry l).startCluster.setWidth 32) := by
    rw [RmSafe, and_iff_right hread]
    simp
  rw [hiff]
  cases hl : foundAt s.files x with
  | none =>
    rw [hl] at hp
    obtain rfl : p = none := by simpa using hp
    exact (ends_pure _).mpr fun l hl => by cases hl
  | some l =>
    rw [hl, Option.map_some] at hp
    obtain ⟨q, rfl, hq⟩ := Option.map_eq_some_iff.mp hp
    have hfat : ∀ e, (s₁.files.change (·.setEntry q e)).fat = s.files.fat := fun e =>
      (setEntry_fat q e).trans hb.fat
    simp only [ends_bind, ends_get, ends_onFiles, ends_changing, ends_pure, hq, Option.mem_def,
      Option.some.injEq, forall_eq', harmless_halt]
    refine ends_del.mono (fun _ s₂ h₂ => ?_) fun e _ he => ?_
    · rw [hfat] at h₂
      exact .inl h₂
    · rw [hfat] at he
      rw [endless_iff, he, Except.error.injEq, or_iff_right]
      rintro ⟨cs, hcs⟩
      cases he.symm.trans (follow_eq_ok.mpr hcs)

/-! ## `write` and `cp` -/

/-- The name fits `tmp_name`, it has an extension, and its parts fit the directory entry. -/
def NameSafe (name : Option CStr) : Prop :=
  ∃ x ext, name = some x ∧ x.length < 20 ∧ x.after 0x2E = some ext ∧ (x.before 0x2E).length < 11 ∧
    ext.length < 3

/-- `fat12_create_file` can take the name, if there is an entry for it. -/
def CreateSafe (s : Fs) (name : Option CStr) : Prop := newEntry s.rootDir ≠ none → NameSafe name

/-- `cp` can take its arguments: there is a source, and if there is a file of this name it fits the
buffer and can be created under the other one. -/
def CpSafe (s : Fs) (src dst : Option CStr) : Prop :=
  ∃ x, src = some x ∧ ∀ i, findRoot s.rootDir x = some i → ∃ cs,
    FatChain s.fat ((s.rootDir i).startCluster.setWidth 32) cs ∧ cs.length ≤ 30 ∧ CreateSafe s dst

theorem safeIff_fat12CreateFile {addr : List Byte} {size : ℤ} {name : Option CStr} :
    SafeIff (CreateSafe s.files name) (fat12CreateFile addr size name) s := by
  have hfits : ∀ {x ext : CStr}, x.length < 20 → x.after 0x2E = some ext → ext.length < 3 →
      NameFits x s.files := by
    intro x ext hx hext hlt
    refine ⟨hx, ?_⟩
    rw [extensionOf, hext, Option.getD_some]
    omega
  simp only [SafeIff, fat12CreateFile, ends_bind, ends_get, CreateSafe]
  cases hn : newEntry s.fs.rootDir with
  | none =>
    have hnone : newEntry s.files.rootDir = none := hn
    simp only [ends_onFiles, AdvancedOS.ends_fat12CreateFile]
    refine ⟨fun _ h => absurd hnone h, fun i hi => ?_⟩
    cases hnone.symm.trans hi
  | some i =>
    have hsome : newEntry s.files.rootDir = some i := hn
    have hiff : (newEntry s.files.rootDir ≠ none → NameSafe name) ↔ NameSafe name :=
      imp_iff_right (hsome ▸ Option.some_ne_none i)
    rw [hiff]
    simp only [ends_bind, ends_onFiles, AdvancedOS.ends_fat12CreateFile, ends_strcpyTo, strsep]
    refine ⟨fun hno => iff_of_false (fun h => h) ?_, ?_⟩
    · rintro ⟨x, -, hx, -⟩
      exact Option.some_ne_none x (hx.symm.trans hno)
    rintro x rfl
    have hname : NameSafe (some x) ↔ x.length < 20 ∧ (x.before 0x2E).length < 11 ∧
        ∃ ext, x.after 0x2E = some ext ∧ ext.length < 3 := by
      constructor
      · rintro ⟨_, ext, ⟨⟩, h1, h2, h3, h4⟩
        exact ⟨h1, h3, ext, h2, h4⟩
      · rintro ⟨h1, h3, ext, h2, h4⟩
        exact ⟨x, ext, rfl, h1, h2, h3, h4⟩
    rw [hname]
    refine ⟨fun h1 => ⟨fun h => (by cases h), fun base hbase => ?_⟩, fun h1 =>
      iff_of_false (fun h => h) fun h => h1 h.1⟩
    cases hbase
    refine ⟨fun h3 => ⟨fun hno => iff_of_false (fun h => h) ?_, fun ext hext => ⟨fun h4 =>
      ⟨fun h => absurd hsome (h ▸ (Option.some_ne_none i).symm), fun j hj => ⟨fun _ => ?_, fun h => ?_⟩⟩,
        fun h4 => iff_of_false (fun h => h) ?_⟩⟩, fun h3 => iff_of_false (fun h => h) fun h => h3 h.2.1⟩
    · rintro ⟨-, -, ext, hext, -⟩
      exact Option.some_ne_none ext (hext.symm.trans hno)
    · exact ⟨h1, h3, ext, hext, h4⟩
    · exact absurd (hfits h1 hext h4) h
    · rintro ⟨-, -, ext', hext', h⟩
      cases hext.symm.trans hext'
      exact h4 h

theorem safeIff_fat12Cp {src dst : Option CStr} :
    SafeIff (CpSafe s.files src dst) (fat12Cp src dst) s := by
  rw [SafeIff, fat12Cp, ends_bind, ends_strArg]
  refine ⟨fun hno => iff_of_false (fun h => h) ?_, ?_⟩
  · rintro ⟨x, hx, -⟩
    exact Option.some_ne_none x (hx.symm.trans hno)
  rintro x rfl
  have hiff : CpSafe s.files (some x) dst ↔ ∀ i, findRoot s.files.rootDir x = some i → ∃ cs,
      FatChain s.files.fat ((s.files.rootDir i).startCluster.setWidth 32) cs ∧ cs.length ≤ 30 ∧
        CreateSafe s.files dst := by
    simp [CpSafe]
  rw [hiff, ends_bind]
  refine ends_reads (ends_fat12ReadFile (fun hnone => ?_) (fun i hi cs hcs => ?_)
    fun i hi _ _ hno _ e he => iff_of_false he ?_)
  · refine (ends_pure _).mpr fun i hi => ?_
    cases hnone.symm.trans hi
  · have hall : (∀ j, findRoot s.files.rootDir x = some j → ∃ cs,
        FatChain s.files.fat ((s.files.rootDir j).startCluster.setWidth 32) cs ∧ cs.length ≤ 30 ∧
          CreateSafe s.files dst) ↔ cs.length ≤ 30 ∧ CreateSafe s.files dst := by
      constructor
      · intro h
        obtain ⟨cs', hcs', hlen, hcr⟩ := h i hi
        cases hcs.unique hcs'
        exact ⟨hlen, hcr⟩
      · rintro h j hj
        cases hi.symm.trans hj
        exact ⟨cs, hcs, h⟩
    rw [hall]
    simp only [List.length_map, ends_ite]
    refine ⟨fun hlen => ?_, fun hlen => ?_⟩
    · rw [and_iff_right hlen]
      exact safeIff_fat12CreateFile.pure true
    · rw [ends_onFiles, ends_outOfBounds]
      exact iff_of_false (fun h => h) fun h => hlen h.1
  · intro h
    obtain ⟨cs, hcs, -⟩ := h i hi
    cases hno.symm.trans (follow_eq_ok.mpr hcs)

end AdvancedOS.Shell
