import AdvancedOS.Fat.Gone

/-!
# Looking up a new file

`fat12_create_file` stores the name as it is, `fat12_construct_file_name` makes lower case of it,
and the search compares the result with what it is given.

* `DottedName`: names of one to eight characters, a dot, and one to three characters;
* `of_create`: what a call of `fat12_create_file` that returns has done;
* `FoundByName`: the new file is found, and every other name as before;
* `found_by_name_iff`: **this is so exactly for names without upper-case letters, where an entry is
  free and no label or deleted entry before it is listed under the name**;
* `not_found_by_name`: a name with a capital letter.
-/

namespace AdvancedOS

open Function (update)

variable {s s' : Fs} {name n x : CStr} {size : ℤ} {addr : List Byte} {i j k : RootIdx}
  {e : FileEntry} {rootDir : RootIdx → FileEntry}

/-! ## Names -/

/-- A name of one to eight characters, a dot, and one to three characters. -/
structure DottedName (name : CStr) : Prop where
  noSpace : 0x20 ∉ name.toList
  pos : 0 < (name.before 0x2E).length
  le_eight : (name.before 0x2E).length ≤ 8
  extension : ∃ x, name.after 0x2E = some x ∧ 0 < x.length ∧ x.length ≤ 3 ∧ 0x2E ∉ x.toList

namespace DottedName

theorem shortName_eq (h : DottedName name) (s : Fs) :
    shortName (name.before 0x2E) (extensionOf name s) = tolower name := by
  obtain ⟨x, hx, hpos, h3, -⟩ := h.extension
  rw [extensionOf, hx, Option.getD_some]
  exact shortName_eq_tolower h.noSpace h.le_eight hx hpos h3

theorem fits (h : DottedName name) (s : Fs) : NameFits name s := by
  obtain ⟨x, hx, -, h3, -⟩ := h.extension
  exact .of_after h.le_eight hx h3 s

theorem ne_of_free (h : DottedName name) (he : e.get 0 = 0) : fat12ConstructFileName e ≠ name := by
  rintro rfl
  have hpos := h.pos
  have hbase : ((fat12ConstructFileName e).before 0x2E).toList = [] := by
    change (fat12ConstructFileName e).toList.takeWhile _ = []
    rcases construct_free he with hn | hn
    · rw [hn, List.takeWhile_nil]
    · obtain ⟨l, hl⟩ := List.head?_eq_some_iff.mp hn
      rw [hl, List.takeWhile_cons_of_neg (by simp)]
  rw [CStr.length, hbase] at hpos
  exact Nat.lt_irrefl _ hpos

end DottedName

/-! ## Creating -/

/-- **Either nothing is entered, or the first free entry is filled in.** -/
theorem of_create (h : fat12CreateFile addr size name s = .ok () s') :
    s' = s.allocated size ∨ ∃ k, newEntry s.rootDir = some k ∧ NameFits name s ∧
      s' = s.created size name k := by
  have hend : Ends (fat12CreateFile addr size name) s (fun _ s' => s' = s.allocated size ∨
      ∃ k, newEntry s.rootDir = some k ∧ NameFits name s ∧ s' = s.created size name k)
      fun _ _ => True := by
    rw [ends_fat12CreateFile]
    exact ⟨fun _ => .inl rfl, fun k hk => ⟨fun hfit => .inr ⟨k, hk, hfit, rfl⟩, fun _ => trivial⟩⟩
  exact hend.of_ok h

theorem exists_created (hk : newEntry s.rootDir = some k) (hfit : NameFits name s) :
    fat12CreateFile addr size name s = .ok () (s.created size name k) := by
  refine (ends_result _ (· = _)).mp ((ends_fat12CreateFile addr size name).mpr ⟨fun hn => ?_, ?_⟩)
  · cases hk.symm.trans hn
  · intro i hi
    cases hk.symm.trans hi
    exact ⟨fun _ => rfl, fun hn => (hn hfit).elim⟩

theorem created_rootDir : (s.created size name k).rootDir = update s.rootDir k
    (enterFile (s.rootDir k) (name.before 0x2E) (extensionOf name s)
      (allocate (numClusters size) s.fat).2 size) := rfl

theorem DottedName.construct_created (h : DottedName name) (s : Fs) (size : ℤ) (k : RootIdx) :
    fat12ConstructFileName ((s.created size name k).rootDir k) = tolower name := by
  have hfit := h.fits s
  rw [created_rootDir, Function.update_self, construct_enterFile hfit.before_lt hfit.2,
    h.shortName_eq]

/-! ## The result -/

/-- `fat12_create_file` returns, and then the search for the name returns a pointer to the entry
that has changed, which has the size and the first cluster of the file; every other name of this
form is found as before. -/
def FoundByName (addr : List Byte) (size : ℤ) (name : CStr) (s : Fs) : Prop :=
  ∃ s' i, fat12CreateFile addr size name s = .ok () s' ∧ s'.rootDir i ≠ s.rootDir i ∧
    fat12FindEntry name s' = .ok (some (.root i)) s' ∧
    (s'.rootDir i).fileLength = BitVec.ofInt 32 size ∧
    (s'.rootDir i).startCluster = BitVec.ofNat 16 (allocate (numClusters size) s.fat).2 ∧
    ∀ n o, DottedName n → n ≠ name → Resolves n s o → Resolves n s' o

theorem find_root_iff (hroot : s.currDir = FAT_ROOT_REGION_START) :
    fat12FindEntry name s = .ok (some (.root i)) s ↔ findRoot s.rootDir name = some i := by
  have hend : fat12FindEntry name s = .ok ((findRoot s.rootDir name).map .root) s :=
    (ends_result _ (· = _)).mp (ends_fat12FindEntry (fun _ => rfl) (fun hne => (hne hroot).elim)
      fun hne => (hne hroot).elim)
  rw [hend]
  cases findRoot s.rootDir name <;> simp

theorem of_found (hroot : s.currDir = FAT_ROOT_REGION_START) (hname : DottedName name)
    (h : FoundByName addr size name s) : tolower name = name ∧ ∃ k, newEntry s.rootDir = some k ∧
      ∀ j < k, fat12ConstructFileName (s.rootDir j) ≠ name := by
  obtain ⟨s', i, hs', hi, hfind, -⟩ := h
  obtain rfl | ⟨k, hk, -, rfl⟩ := of_create hs'
  · exact (hi rfl).elim
  · obtain rfl : i = k := by
      by_contra hik
      exact hi (by rw [created_rootDir, Function.update_of_ne hik])
    rw [find_root_iff (by exact hroot), findRoot_iff, hname.construct_created] at hfind
    refine ⟨hfind.1, i, hk, fun j hj => ?_⟩
    have hj' := hfind.2 j hj
    rwa [created_rootDir, Function.update_of_ne hj.ne] at hj'

/-- **For every root directory and every name of eight characters, a dot and three, or fewer, that
no entry in use is listed under: the file that is created is found by its name, and the others as
before, exactly if the name has no capital letters, an entry is free, and no entry before it, in use
or not, is listed under the name.** -/
theorem found_by_name_iff (hroot : s.currDir = FAT_ROOT_REGION_START) (hname : DottedName name)
    (hnew : ∀ j, InUse (s.rootDir j) → fat12ConstructFileName (s.rootDir j) ≠ name) :
    FoundByName addr size name s ↔ tolower name = name ∧ ∃ k, (s.rootDir k).get 0 = 0 ∧
      ∀ j < k, (s.rootDir j).get 0 ≠ 0 ∧
        (¬ InUse (s.rootDir j) → fat12ConstructFileName (s.rootDir j) ≠ name) := by
  constructor
  · intro h
    obtain ⟨hlow, k, hk, hbefore⟩ := of_found hroot hname h
    obtain ⟨hfree, hused⟩ := newEntry_iff.mp hk
    exact ⟨hlow, k, hfree, fun j hj => ⟨hused j hj, fun _ => hbefore j hj⟩⟩
  · rintro ⟨hlow, k, hfree, hbefore⟩
    have hk : newEntry s.rootDir = some k := newEntry_iff.mpr ⟨hfree, fun j hj => (hbefore j hj).1⟩
    have hcon := (hname.construct_created s size k).trans hlow
    have hold : ∀ n, DottedName n → fat12ConstructFileName (s.rootDir k) ≠ n :=
      fun n hn => hn.ne_of_free hfree
    refine ⟨_, k, exists_created hk (hname.fits s), fun he => hold name hname (he ▸ hcon), ?_, ?_,
      ?_, fun n o hn hne ho => ?_⟩
    · refine (find_root_iff (s := s.created size name k) hroot).mpr
        (findRoot_iff.mpr ⟨hcon, fun j hj => ?_⟩)
      rw [created_rootDir, Function.update_of_ne hj.ne]
      by_cases hu : InUse (s.rootDir j)
      · exact hnew j hu
      · exact (hbefore j hj).2 hu
    · rw [created_rootDir, Function.update_self, enterFile_fileLength]
    · rw [created_rootDir, Function.update_self, enterFile_startCluster]
    · rw [resolves_root hroot] at ho
      have hother : fat12ConstructFileName ((s.created size name k).rootDir k) ≠ n :=
        fun h => hne (h.symm.trans hcon)
      rw [created_rootDir, Function.update_self] at hother
      rw [resolves_root (s := s.created size name k) hroot, created_rootDir,
        map_findRoot_update (hold n hn) hother, ho]

/-! ## Capital letters -/

theorem not_inUse_formatted (j : RootIdx) : ¬ InUse (formatted.rootDir j) := fun h => h.1.1 rfl

/-- The file `a.b` is found. -/
theorem found_by_name_formatted : FoundByName [] 1 nameAB formatted := by
  refine (found_by_name_iff rfl ⟨by decide, by decide, by decide, .ofChars ['b'], ?_⟩
    fun j hj => (not_inUse_formatted j hj).elim).mpr
    ⟨by decide, 0, rfl, fun j hj => (Fin.not_lt_zero j hj).elim⟩
  decide

/-- The name `A.B`. -/
def nameCapital : CStr := .ofChars ['A', '.', 'B']

theorem dottedName_capital : DottedName nameCapital :=
  ⟨by decide, by decide, by decide, .ofChars ['B'], by decide⟩

/-- The file `A.B` is not found. -/
theorem not_found_by_name : formatted.currDir = FAT_ROOT_REGION_START ∧
    (∃ j, (formatted.rootDir j).get 0 = 0) ∧ DottedName nameCapital ∧
    (∀ j, InUse (formatted.rootDir j) →
      fat12ConstructFileName (formatted.rootDir j) ≠ nameCapital) ∧
    ¬ FoundByName [] 1 nameCapital formatted := by
  refine ⟨rfl, ⟨0, rfl⟩, dottedName_capital, fun j hj => (not_inUse_formatted j hj).elim,
    fun h => ?_⟩
  exact absurd (of_found rfl dottedName_capital h).1 (by decide)

end AdvancedOS
