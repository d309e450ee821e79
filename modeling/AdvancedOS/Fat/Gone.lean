import AdvancedOS.Fat.Listing
import AdvancedOS.Fat.Copy
import Mathlib.Data.List.Find

/-!
# What has been removed

`fat12_rm` marks the entry in the root table, or in the buffer that the next search reads again from
the drive.

* `Resolves`: what the search for a name returns;
* `ends_rm`: when `fat12_rm` returns, and with what;
* `volume_of_run`: no sequence of calls of `fat12_cd` changes the volume;
* `Gone`: a name that has been removed is not found, and the others as before, after any such
  sequence that ends in the same directory;
* `gone_iff`: **this is so exactly in a directory that fits its buffer, for a name with one entry in
  the root directory, with a chain, or where nothing is listed under the name or `fat12_rm` goes round
  the chain for ever**;
* `not_gone`: a file in a subdirectory.
-/

namespace AdvancedOS

open Function (update)

variable {s s' s₁ s₂ : Fs} {v : Volume} {d : Dir} {l : Loc} {c : Word} {e : FileEntry}
  {name folder n : CStr} {o : Option FileEntry} {b : Bool} {i j : RootIdx}
  {rootDir : RootIdx → FileEntry} {E : Halt → Fs → Prop}

/-! ## Searching -/

/-- The search for `name` returns, with `NULL` or a pointer to an entry with these contents. -/
def Resolves (name : CStr) (s : Fs) (o : Option FileEntry) : Prop :=
  ∃ p s', fat12FindEntry name s = .ok p s' ∧ p.map s'.entryAt = o

theorem resolves_iff (h : Readable s) :
    Resolves name s o ↔ (foundAt s name).map s.volume.entry = o := by
  obtain ⟨p, s', hs, -, hp⟩ := exists_ok_iff.mpr (@ends_search s name _ h)
  constructor
  · rintro ⟨q, s'', hs', rfl⟩
    cases hs.symm.trans hs'
    exact hp.symm
  · rintro rfl
    exact ⟨p, s', hs, hp⟩

theorem finds_iff : (∃ p s', fat12FindEntry name s = .ok p s') ↔ Readable s := by
  constructor
  · rintro ⟨p, s', h⟩
    exact readable_of_find h
  · intro h
    obtain ⟨p, s', hs, -⟩ := exists_ok_iff.mpr (@ends_search s name _ h)
    exact ⟨p, s', hs⟩

/-- The entry at `l` is the first one under `name` among those that are looked through. -/
def FirstListed (s : Fs) (name : CStr) (l : Loc) : Prop :=
  ∃ pre post, scanned s = pre ++ l :: post ∧ fat12ConstructFileName (s.volume.entry l) = name ∧
    ∀ l' ∈ pre, fat12ConstructFileName (s.volume.entry l') ≠ name

theorem foundAt_eq_some : foundAt s name = some l ↔ FirstListed s name l := by
  rw [foundAt_eq_scanned, List.find?_eq_some_iff_append]
  constructor
  · rintro ⟨hname, pre, post, hl, hpre⟩
    exact ⟨pre, post, hl, by simpa using hname, fun l' hl' => by simpa using hpre l' hl'⟩
  · rintro ⟨pre, post, hl, hname, hpre⟩
    exact ⟨by simpa using hname, pre, post, hl, fun l' hl' => by simpa using hpre l' hl'⟩

theorem FirstListed.unique {l' : Loc} (h : FirstListed s name l) (h' : FirstListed s name l') :
    l = l' := Option.some.inj ((foundAt_eq_some.mpr h).symm.trans (foundAt_eq_some.mpr h'))

/-! ## Removing -/

theorem ends_del : Ends (fat12DelFatEntry c) s (fun _ _ => ∃ cs, FatChain s.fat c cs)
    fun e _ => follow s.fat c = .error e := by
  simp only [fat12DelFatEntry, ends_bind]
  refine delFatLoop_ends.mono ?_ fun _ _ he => he
  rintro _ s' ⟨⟨cs, hcs⟩, -⟩
  exact ends_fat12WriteBackFat.mono (fun _ _ _ => ⟨cs, follow_eq_ok.mp hcs⟩) fun _ _ he => he

theorem setEntry_fat (p : EntryPtr) (e : FileEntry) : (s.change (·.setEntry p e)).fat = s.fat := by
  cases p <;> rfl

/-- **`fat12_rm` returns `true` where it finds the name and can follow the chain.** -/
theorem ends_rm : Ends (fat12Rm name) s
    (fun b _ => Readable s ∧ b = (foundAt s name).isSome ∧
      ∀ l ∈ foundAt s name, ∃ cs, s.volume.Chain l cs)
    fun e _ => ¬ Readable s ∨ Readable s ∧ ∃ l ∈ foundAt s name,
      follow s.fat ((s.volume.entry l).startCluster.setWidth 32) = .error e := by
  simp only [fat12Rm, ends_bind]
  refine ends_search_readable.mono ?_ fun e _ he => .inl he
  rintro p s₁ ⟨hr, hb, hp⟩
  cases hf : foundAt s name with
  | none =>
    rw [hf, Option.map_none, Option.map_eq_none_iff] at hp
    rw [hp]
    exact (ends_pure _).mpr ⟨hr, rfl, fun l hl => (Option.not_mem_none l hl).elim⟩
  | some l =>
    rw [hf, Option.map_some] at hp
    obtain ⟨p, rfl, he⟩ := Option.map_eq_some_iff.mp hp
    simp only [ends_bind, ends_get, ends_changing, ends_pure]
    refine ends_del.mono (fun _ _ hc => ?_) fun e _ hc => ?_
    · rw [setEntry_fat, hb.fat, he] at hc
      refine ⟨hr, rfl, ?_⟩
      rintro l' ⟨⟩
      exact hc
    · rw [setEntry_fat, hb.fat, he] at hc
      exact .inr ⟨hr, l, rfl, hc⟩

theorem exists_rm (h : Readable s) (hchain : ∀ l ∈ foundAt s name, ∃ cs, s.volume.Chain l cs) :
    ∃ s₁, fat12Rm name s = .ok (foundAt s name).isSome s₁ := by
  obtain ⟨b, s₁, h₁, rfl⟩ : ∃ b s₁, fat12Rm name s = .ok b s₁ ∧ b = (foundAt s name).isSome := by
    refine exists_ok_iff.mpr (ends_rm.mono (fun _ _ hb => hb.2.1) fun e _ he => ?_)
    rcases he with hno | ⟨-, l, hl, he⟩
    · exact hno h
    · obtain ⟨cs, hcs⟩ := hchain l hl
      cases he.symm.trans (follow_eq_ok.mpr hcs)
  exact ⟨s₁, h₁⟩

theorem of_rm (h : fat12Rm name s = .ok b s₁) :
    s₁.volume = ((removed name s).elim s.volume fun i => s.volume.remove i) ∧
      s₁.currDir = s.currDir := by
  have hl := (@ends_fat12Rm s name).of_ok h
  exact ⟨hl.volume, hl.currDir⟩

/-! ## Going elsewhere and back -/

/-- The code leaves the volume alone. -/
abbrev KeepsVolume {α : Type} (v : Volume) (x : FsKern α) : Prop :=
  Preserves (fun s => s.volume = v) (fun _ _ => True) x

theorem keepsVolume_readSubdir : KeepsVolume v (readSubdir c) :=
  fun _ hs => ends_readSubdir (fun _ _ => hs) fun _ _ _ _ => trivial

theorem keepsVolume_setPath (path : CStr) : KeepsVolume v (setPath path) :=
  .ite (.modify fun _ h => h) (.throw fun _ _ => trivial)

theorem keepsVolume_fat12SetDir (newDir : ℕ) (action : CStr) :
    KeepsVolume v (fat12SetDir newDir action) := by
  refine .bind .get fun s => .ite (.bind (.modify fun _ h => h) fun _ => keepsVolume_setPath _)
    (.bind (.modify fun _ h => h) fun _ => .ite (.pure _) (.ite (.bind .get fun s' => ?_)
      (.bind .get fun _ => keepsVolume_setPath _)))
  have hroot : ∀ {d : ℕ}, KeepsVolume v
      (if d = FAT_ROOT_REGION_START then setPath rootPath else pure PUnit.unit) :=
    .ite (keepsVolume_setPath _) (.pure _)
  cases (strsep 0x2F (some (reverse s'.currPath))).2 with
  | some tmpPath => exact .bind (keepsVolume_setPath _) fun _ => hroot
  | none =>
    exact .bind (.modify fun _ h => h) fun _ => .bind (keepsVolume_setPath _) fun _ => hroot

theorem keepsVolume_fat12Cd : KeepsVolume v (fat12Cd folder) := by
  have hfind : KeepsVolume v (fat12FindEntry folder) :=
    .bind .get fun _ => .ite (.pure _)
      (.bind keepsVolume_readSubdir fun _ => .bind .get fun _ => .pure _)
  refine .bind hfind fun o => ?_
  cases o with
  | none => exact .pure _
  | some p =>
    exact .bind .get fun _ => .bind (keepsVolume_fat12SetDir _ _) fun _ =>
      .bind keepsVolume_readSubdir fun _ => .pure _

/-- **No sequence of calls of `fat12_cd` changes the volume.** -/
theorem volume_of_run (h : Run.Reach cdStep (fun _ _ => True) s s') : s'.volume = s.volume := by
  refine h.invariant (I := fun s' => s'.volume = s.volume) rfl ?_
  intro s₁ folder s₂ hv _ hs
  unfold cdStep at hs
  split at hs
  · rename_i b s₃ hok
    cases hs
    exact (keepsVolume_fat12Cd s₁ hv).of_ok hok
  · cases hs

/-! ## The result -/

/-- The search returns, so the directory has fitted its buffer, and `fat12_rm` stays in the tables.
After it has returned `true`, `name` is not found and every other name of the usual form is found as
before, in every state with the same current directory that calls of `fat12_cd` lead to; if it has
returned `false`, nothing that is stored has changed. -/
structure Gone (name : CStr) (s : Fs) : Prop where
  finds : ∃ p s₁, fat12FindEntry name s = .ok p s₁
  inside : ∀ e s₁, fat12Rm name s = .error e s₁ → e = .loops
  gone : ∀ s₁, fat12Rm name s = .ok true s₁ → ∀ s₂, Run.Reach cdStep (fun _ _ => True) s₁ s₂ →
    s₂.currDir = s.currDir → Resolves name s₂ none ∧
      ∀ n o, EightDotThree n → n ≠ name → Resolves n s o → Resolves n s₂ o
  unchanged : ∀ s₁, fat12Rm name s = .ok false s₁ → s₁.volume = s.volume

/-- `name` is that of a file in `d`. -/
def FileIn (v : Volume) (d : Dir) (name : CStr) : Prop :=
  ∃ l ∈ v.places d, InUse (v.entry l) ∧ (v.entry l).directory = false ∧
    fat12ConstructFileName (v.entry l) = name

/-- The directory can be read, an entry is listed under `name`, and its chain can be followed. -/
def Erasable (s : Fs) (name : CStr) : Prop :=
  Readable s ∧ ∃ l, FirstListed s name l ∧ ∃ cs, s.volume.Chain l cs

/-- The directory can be read, and the chain of the first entry listed under `name` runs in a circle,
so that `fat12_rm` does not return. -/
def Circles (s : Fs) (name : CStr) : Prop :=
  Readable s ∧ ∃ l, FirstListed s name l ∧
    Endless s.fat ((s.volume.entry l).startCluster.setWidth 32)

theorem FileIn.ne_mark (h : FileIn v d name) : name.toList.head? ≠ some 0xE5 := by
  obtain ⟨l, -, hu, -, rfl⟩ := h
  exact fun hm => hu.1.2 (construct_mark.mp hm)

theorem construct_marked_ne (hn : n.toList.head? ≠ some 0xE5) :
    fat12ConstructFileName (e.write 0 [0xE5]) ≠ n := by
  rintro rfl
  refine hn (construct_mark.mpr ?_)
  rw [Bytes.get_write, if_pos (by omega)]
  rfl

theorem map_findRoot_update (hold : fat12ConstructFileName (rootDir i) ≠ n)
    (hnew : fat12ConstructFileName e ≠ n) :
    (findRoot (update rootDir i e) n).map (update rootDir i e) =
      (findRoot rootDir n).map rootDir := by
  have hfind : findRoot (update rootDir i e) n = findRoot rootDir n := by
    refine List.find?_congr fun j _ => ?_
    by_cases hj : j = i
    · subst hj
      rw [Function.update_self, decide_eq_false hnew, decide_eq_false hold]
    · rw [Function.update_of_ne hj]
  rw [hfind]
  cases hf : findRoot rootDir n with
  | none => rfl
  | some j =>
    have hji : j ≠ i := fun h => hold (h ▸ construct_of_findRoot hf)
    rw [Option.map_some, Option.map_some, Function.update_of_ne hji]

theorem resolves_root (h : s.currDir = FAT_ROOT_REGION_START) :
    Resolves n s o ↔ (findRoot s.rootDir n).map s.rootDir = o := by
  rw [resolves_iff (.inl h), foundAt, if_pos h, Option.map_map]
  rfl

/-- **In the root directory a name with one entry is gone, and the others are found as before.** -/
theorem resolves_removed (hroot : s.currDir = FAT_ROOT_REGION_START)
    (hname : name.toList.head? ≠ some 0xE5) (hi : fat12ConstructFileName (s.rootDir i) = name)
    (huniq : ∀ j, fat12ConstructFileName (s.rootDir j) = name → j = i)
    (hv : s₂.volume = s.volume.remove i) (hcurr : s₂.currDir = s.currDir) :
    Resolves name s₂ none ∧
      ∀ n o, EightDotThree n → n ≠ name → Resolves n s o → Resolves n s₂ o := by
  have hdir : s₂.rootDir = update s.rootDir i ((s.rootDir i).write 0 [0xE5]) :=
    congrArg Volume.rootDir hv
  have hroot₂ : s₂.currDir = FAT_ROOT_REGION_START := hcurr.trans hroot
  refine ⟨?_, fun n o hn hne ho => ?_⟩
  · rw [resolves_root hroot₂, hdir, findRoot_eq_none fun j => ?_]
    · rfl
    · by_cases hj : j = i
      · rw [hj, Function.update_self]
        exact construct_marked_ne hname
      · rw [Function.update_of_ne hj]
        exact fun h => hj (huniq j h)
  · rw [resolves_root hroot] at ho
    rw [resolves_root hroot₂, hdir,
      map_findRoot_update (hi ▸ hne.symm) (construct_marked_ne hn.noMark), ho]

theorem removed_of_none (h : foundAt s name = none) : removed name s = none := by
  unfold foundAt at h
  unfold removed
  by_cases hroot : s.currDir = FAT_ROOT_REGION_START
  · rw [if_pos hroot] at h ⊢
    exact Option.map_eq_none_iff.mp h
  · exact if_neg hroot

theorem exists_removed (hroot : s.currDir = FAT_ROOT_REGION_START) (hl : foundAt s name = some l) :
    ∃ i, findRoot s.rootDir name = some i ∧ removed name s = some i := by
  rw [foundAt, if_pos hroot] at hl
  obtain ⟨i, hi, -⟩ := Option.map_eq_some_iff.mp hl
  exact ⟨i, hi, by rw [removed, if_pos hroot, hi]⟩

theorem unique_of_removed (hroot : s.currDir = FAT_ROOT_REGION_START)
    (hv : s₁.volume = s.volume.remove i) (hcurr : s₁.currDir = s.currDir)
    (hgone : Resolves name s₁ none) (hj : fat12ConstructFileName (s.rootDir j) = name) : j = i := by
  have hdir : s₁.rootDir = update s.rootDir i ((s.rootDir i).write 0 [0xE5]) :=
    congrArg Volume.rootDir hv
  rw [resolves_root (hcurr.trans hroot), hdir, Option.map_eq_none_iff] at hgone
  by_contra hji
  have hno := List.find?_eq_none.mp hgone j (List.mem_finRange j)
  rw [Function.update_of_ne hji] at hno
  exact hno (decide_eq_true hj)

/-- In a subdirectory the search reads again what has been marked. -/
theorem found_again (hne : s.currDir ≠ FAT_ROOT_REGION_START) (hr : Readable s)
    (hl : foundAt s name = some l) (hv : s₁.volume = s.volume) (hcurr : s₁.currDir = s.currDir) :
    ¬ Resolves name s₁ none := by
  have hr₁ : Readable s₁ := by
    obtain ⟨c, hc⟩ := hr.resolve_left hne
    refine .inr ⟨c, ?_⟩
    rwa [hcurr, show s₁.fat = s.fat from congrArg Volume.fat hv]
  have hfound : foundAt s₁ name = foundAt s name := by
    rw [foundAt_eq_scanned, foundAt_eq_scanned, scanned, scanned, hcurr, hv]
  rw [resolves_iff hr₁, hfound, hl]
  simp

theorem gone_iff_of_true (hname : name.toList.head? ≠ some 0xE5) (herase : Erasable s name)
    (h₁ : fat12Rm name s = .ok true s₁) : Gone name s ↔ s.currDir = FAT_ROOT_REGION_START ∧
      ∀ i j, fat12ConstructFileName (s.rootDir i) = name →
        fat12ConstructFileName (s.rootDir j) = name → i = j := by
  obtain ⟨hr, l, hl, -⟩ := herase
  have hl := foundAt_eq_some.mpr hl
  obtain ⟨hv, hcurr₁⟩ := of_rm h₁
  constructor
  · intro h
    have hgone := (h.gone s₁ h₁ s₁ .init hcurr₁).1
    by_cases hroot : s.currDir = FAT_ROOT_REGION_START
    · obtain ⟨i, -, hrem⟩ := exists_removed hroot hl
      rw [hrem] at hv
      exact ⟨hroot, fun j k hj hk => (unique_of_removed hroot hv hcurr₁ hgone hj).trans
        (unique_of_removed hroot hv hcurr₁ hgone hk).symm⟩
    · have hrem : removed name s = none := if_neg hroot
      rw [hrem] at hv
      exact (found_again hroot hr hl hv hcurr₁ hgone).elim
  · rintro ⟨hroot, huniq⟩
    obtain ⟨i, hi, hrem⟩ := exists_removed hroot hl
    rw [hrem] at hv
    have hi := construct_of_findRoot hi
    refine ⟨finds_iff.mpr hr, fun e s₂ he => (by cases h₁.symm.trans he),
      fun s₂ h₂ s₃ hrun hcurr₃ => ?_, fun s₂ h₂ => (by cases h₁.symm.trans h₂)⟩
    cases h₁.symm.trans h₂
    exact resolves_removed hroot hname hi (fun j hj => huniq j i hj hi)
      ((volume_of_run hrun).trans hv) hcurr₃

/-- Nothing is removed where nothing is found. -/
theorem gone_of_none (hr : Readable s) (hf : foundAt s name = none) : Gone name s := by
  obtain ⟨s₁, h₁⟩ := exists_rm hr fun l hl => by cases hf.symm.trans hl
  rw [hf] at h₁
  refine ⟨finds_iff.mpr hr, fun e s₂ h₂ => (by cases h₁.symm.trans h₂),
    fun s₂ h₂ => (by cases h₁.symm.trans h₂), fun s₂ h₂ => ?_⟩
  rw [(of_rm h₂).1, removed_of_none hf]
  rfl

/-- `fat12_rm` does not return, or goes wrong. -/
theorem gone_iff_of_error {e : Halt} (h₁ : fat12Rm name s = .error e s₁) :
    Gone name s ↔ Circles s name := by
  have hgone : Gone name s ↔ Readable s ∧ e = .loops := by
    refine ⟨fun h => ⟨finds_iff.mp h.finds, h.inside e s₁ h₁⟩, fun ⟨hr, he⟩ =>
      ⟨finds_iff.mpr hr, fun e' s₂ h₂ => ?_, fun s₂ h₂ => ?_, fun s₂ h₂ => ?_⟩⟩
    · cases h₁.symm.trans h₂
      exact he
    · cases h₁.symm.trans h₂
    · cases h₁.symm.trans h₂
  rw [hgone]
  rcases ends_rm.of_error h₁ with hno | ⟨hr, l, hl, he⟩
  · exact iff_of_false (fun h => hno h.1) fun h => hno h.1
  · have hl := foundAt_eq_some.mp hl
    constructor
    · rintro ⟨-, rfl⟩
      exact ⟨hr, l, hl, endless_iff.mpr he⟩
    · rintro ⟨-, l', hl', hends⟩
      obtain rfl := hl.unique hl'
      exact ⟨hr, Except.error.inj (he.symm.trans (endless_iff.mp hends))⟩

/-- **For every directory, whatever is in it, and every name of a file in it: once removed, the name
is gone exactly if the directory is the root directory, or taken for it, one of its entries only is
listed under the name, and its chain can be followed; or if the directory can be read and nothing is
listed under the name, or an entry whose chain runs in a circle.** -/
theorem gone_iff (hcurr : s.currDir = s.volume.number d) (hfile : FileIn s.volume d name) :
    Gone name s ↔
      s.volume.number d = FAT_ROOT_REGION_START ∧ Erasable s name ∧
        (∀ i j, fat12ConstructFileName (s.rootDir i) = name →
          fat12ConstructFileName (s.rootDir j) = name → i = j) ∨
      (Readable s ∧ ∀ l, ¬ FirstListed s name l) ∨ Circles s name := by
  rw [← hcurr]
  cases h₁ : fat12Rm name s with
  | ok b s₁ =>
    obtain ⟨hr, hb, hchain⟩ := ends_rm.of_ok h₁
    cases hf : foundAt s name with
    | none =>
      refine iff_of_true (gone_of_none hr hf) (.inr (.inl ⟨hr, fun l hl => ?_⟩))
      cases hf.symm.trans (foundAt_eq_some.mpr hl)
    | some l =>
      rw [hf] at hb
      subst hb
      have hl := foundAt_eq_some.mp hf
      obtain ⟨cs, hcs⟩ := hchain l hf
      have herase : Erasable s name := ⟨hr, l, hl, cs, hcs⟩
      rw [gone_iff_of_true hfile.ne_mark herase h₁]
      constructor
      · exact fun h => .inl ⟨h.1, herase, h.2⟩
      · rintro (⟨hroot, -, huniq⟩ | ⟨-, hno⟩ | ⟨-, l', hl', hends⟩)
        · exact ⟨hroot, huniq⟩
        · exact (hno l hl).elim
        · obtain rfl := hl.unique hl'
          exact (hends.not_chain hcs).elim
  | error e s₁ =>
    rw [gone_iff_of_error h₁]
    -- where `fat12_rm` returns it is not in this case
    have hno : Readable s → ¬ ∀ l ∈ foundAt s name, ∃ cs, s.volume.Chain l cs := by
      intro hr hchain
      obtain ⟨s₂, h₂⟩ := exists_rm hr hchain
      cases h₁.symm.trans h₂
    constructor
    · exact fun h => .inr (.inr h)
    · rintro (⟨-, ⟨hr, l, hl, hcs⟩, -⟩ | ⟨hr, hnone⟩ | h)
      · refine (hno hr fun l' hl' => ?_).elim
        obtain rfl := hl.unique (foundAt_eq_some.mp hl')
        exact hcs
      · exact (hno hr fun l hl => (hnone l (foundAt_eq_some.mp hl)).elim).elim
      · exact h

/-! ## A file in a directory -/

/-- The entry of a file of one byte. -/
def fileEntry (name : Byte) (cluster : BitVec 16) : FileEntry :=
  .ofList (name :: List.replicate 10 0x20 ++ 0x20 :: List.replicate 14 0 ++ Bytes.le16 cluster ++
    Bytes.le32 1)

/-- The root directory with the directory `A` and the file `G`. -/
def nestedRoot (i : RootIdx) : FileEntry :=
  if i = 0 then entryA else if i = 1 then fileEntry 0x47 4 else fun _ => 0

/-- The directory `A` with its links and the file `F`. -/
def nestedSub (k : SubIdx) : FileEntry :=
  if k = 0 then selfLink else if k = 1 then rootLink else if k = 2 then fileEntry 0x46 3
  else fun _ => 0

/-- A drive with a directory and two files, one of them in the directory. -/
def nested : Fs :=
  { formatted with
    disk := driveOf (fun _ => 0xFFF) nestedRoot fun _ => sectorOf nestedSub }

namespace nested

/-- The volume on this drive. -/
abbrev vol : Volume := onDrive nested.disk

theorem fat_eq : vol.fat = fun _ => 0xFFF := onDrive_driveOf_fat fun _ => by decide

theorem rootDir_eq : vol.rootDir = nestedRoot := onDrive_driveOf_rootDir

theorem entry_root : vol.entry (.root 0) = entryA := by
  rw [Volume.entry, rootDir_eq]
  rfl

theorem entry_sub (k : SubIdx) : vol.entry (.sub 2 k) = nestedSub k :=
  @entry_driveOf _ _ (fun _ => nestedSub) 2 (by decide) k

theorem chain : vol.Chain (.root 0) [2] := by
  refine FatChain.single (fatIdx_eq_some.mpr ?_) ?_
  · rw [entry_root]
    decide
  · rw [fat_eq]
    decide

theorem findRoot_a : findRoot nestedRoot (.ofChars ['a']) = some 0 := by
  apply findRoot_zero
  change fat12ConstructFileName entryA = _
  decide +kernel

theorem places : vol.places (.sub (.root 0)) = (List.finRange FAT_NUM_DIR_ENTRY).map (.sub 2) := by
  rw [places_sub chain, List.flatMap_singleton]

theorem find_sub : vol.find (.sub (.root 0)) folder = (findSub nestedSub folder).map (.sub 2) := by
  rw [Volume.find, places, List.find?_map]
  refine congrArg (Option.map (Loc.sub 2)) (List.find?_congr fun k _ => ?_)
  rw [Function.comp, entry_sub]

theorem subdirectory : Subdirectory vol .root (.ofChars ['a']) (.root 0) where
  found := find_root_eq (rootDir_eq ▸ findRoot_a)
  directory := by
    rw [entry_root]
    decide
  name := by refine ⟨⟨?_, ?_⟩, ?_, ?_⟩ <;> decide
  cluster := by
    rw [entry_root]
    decide
  up := by
    have hfind : findSub nestedSub dotDot = some 1 := by decide +kernel
    refine ⟨.sub 2 1, by rw [find_sub, hfind]; rfl, ?_⟩
    rw [entry_sub]
    decide

theorem exists_entered : ∃ s₀ s, fat12Init nested = .ok () s₀ ∧
    fat12Cd (.ofChars ['a']) s₀ = .ok true s ∧ s.volume = vol ∧
      s.currDir = vol.number (.sub (.root 0)) := by
  obtain ⟨s₀, h₀, hv, hdir, hpath⟩ := exists_init nested
  have hsub : Subdirectory s₀.volume .root (.ofChars ['a']) (.root 0) := hv ▸ subdirectory
  have hchain : ∃ c, s₀.volume.Chain (.root 0) [c] := hv ▸ ⟨2, chain⟩
  obtain ⟨b, s, hs, rfl, hvs, hat⟩ := exists_ok_iff.mpr (ends_down (atDir_init hdir hpath)
    (fun m hm => by cases hm) hsub hchain (by decide))
  exact ⟨s₀, s, h₀, hs, hvs.trans hv, hat.curr.trans (by rw [hvs, hv])⟩

theorem searchable : ∀ l, Dir.sub (.root 0) = .sub l → Searchable vol l := by
  rintro l ⟨⟩
  refine ⟨?_, 2, chain⟩
  rw [entry_root]
  decide

theorem find_f : vol.find (.sub (.root 0)) (.ofChars ['f']) = some (.sub 2 2) := by
  have hfind : findSub nestedSub (.ofChars ['f']) = some 2 := by decide +kernel
  rw [find_sub, hfind]
  rfl

theorem found_f (hv : s.volume = vol) (hcurr : s.currDir = vol.number (.sub (.root 0))) :
    Readable s ∧ foundAt s (.ofChars ['f']) = some (.sub 2 2) := by
  have hcurr : s.currDir = s.volume.number (.sub (.root 0)) := hv ▸ hcurr
  have hsearch : ∀ l, Dir.sub (.root 0) = .sub l → Searchable s.volume l := hv ▸ searchable
  refine ⟨readable_of_searchable hcurr hsearch, ?_⟩
  rw [foundAt_eq_find hcurr hsearch, hv, find_f]

theorem fileIn_f : FileIn vol (.sub (.root 0)) (.ofChars ['f']) := by
  refine ⟨.sub 2 2, List.mem_of_find?_eq_some find_f, ?_, ?_, name_of_find find_f⟩
  · rw [entry_sub]
    decide
  · rw [entry_sub]
    decide

end nested

/-- The file in the root directory is gone. -/
theorem gone_nested : ∃ s, fat12Init nested = .ok () s ∧ Gone (.ofChars ['g']) s := by
  obtain ⟨s, hs, hv, hdir, -⟩ := exists_init nested
  have hroot : s.rootDir = nestedRoot := (congrArg Volume.rootDir hv).trans nested.rootDir_eq
  have hentry : ∀ i, s.volume.entry (.root i) = nestedRoot i := fun i => congrFun hroot i
  have hg : fat12ConstructFileName (nestedRoot 1) = .ofChars ['g'] := by
    change fat12ConstructFileName (fileEntry 0x47 4) = _
    decide +kernel
  have hA : fat12ConstructFileName entryA ≠ .ofChars ['g'] := by decide +kernel
  have hfree : fat12ConstructFileName (fun _ => 0) ≠ .ofChars ['g'] := by decide +kernel
  have huniq : ∀ i, fat12ConstructFileName (s.rootDir i) = .ofChars ['g'] → i = 1 := by
    intro i hi
    rw [hroot, nestedRoot] at hi
    split_ifs at hi with h0 h1
    · exact (hA hi).elim
    · exact h1
    · exact (hfree hi).elim
  have hfile : FileIn s.volume .root (.ofChars ['g']) := by
    refine ⟨.root 1, List.mem_map_of_mem (List.mem_finRange 1), ?_, ?_, by rw [hentry, hg]⟩
    · rw [hentry]
      decide
    · rw [hentry]
      decide
  have hfirst : FirstListed s (.ofChars ['g']) (.root 1) := by
    refine foundAt_eq_some.mp ?_
    rw [foundAt, if_pos hdir, findRoot_iff.mpr ⟨by rw [hroot, hg], fun j hj hn => ?_⟩, Option.map_some]
    exact hj.ne (huniq j hn)
  have hchain : s.volume.Chain (.root 1) [4] := by
    refine FatChain.single (fatIdx_eq_some.mpr ?_) ?_
    · rw [hentry]
      decide
    · rw [show s.volume.fat = _ from (congrArg Volume.fat hv).trans nested.fat_eq]
      decide
  exact ⟨s, hs, (gone_iff (d := .root) hdir hfile).mpr (.inl ⟨rfl, ⟨.inl hdir, _, hfirst, _, hchain⟩,
    fun i j hi hj => (huniq i hi).trans (huniq j hj).symm⟩)⟩

/-- The file in the directory is found again. -/
theorem not_gone : ∃ s₀ s, fat12Init nested = .ok () s₀ ∧
    fat12Cd (.ofChars ['a']) s₀ = .ok true s ∧
      s.currDir = s.volume.number (.sub (.root 0)) ∧
        FileIn s.volume (.sub (.root 0)) (.ofChars ['f']) ∧ ¬ Gone (.ofChars ['f']) s := by
  obtain ⟨s₀, s, h₀, hs, hv, hcurr⟩ := nested.exists_entered
  obtain ⟨hr, hl⟩ := nested.found_f hv hcurr
  refine ⟨s₀, s, h₀, hs, hv ▸ hcurr, hv ▸ nested.fileIn_f, fun h => ?_⟩
  have hne : s.currDir ≠ FAT_ROOT_REGION_START := by
    rw [hcurr]
    exact (nested.searchable _ rfl).cluster
  have hchain : ∃ cs, s.volume.Chain (.sub 2 2) cs := by
    rw [hv]
    refine ⟨[3], FatChain.single (fatIdx_eq_some.mpr ?_) ?_⟩
    · rw [nested.entry_sub]
      decide
    · rw [nested.fat_eq]
      decide
  obtain ⟨s₁, h₁⟩ := exists_rm hr fun l hl' => by
    cases hl.symm.trans hl'
    exact hchain
  rw [hl] at h₁
  obtain ⟨hv₁, hcurr₁⟩ := of_rm h₁
  rw [removed, if_neg hne] at hv₁
  exact found_again hne hr hl hv₁ hcurr₁ (h.gone s₁ h₁ s₁ .init hcurr₁).1

end AdvancedOS
