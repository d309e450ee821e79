import AdvancedOS.Fat.Gone

/-!
# Two ways to look up a name

`fat12_read_file` looks through the root directory, `fat12_find_entry` through the current one.

* `readFile_iff`, `findEntry_iff`: when they succeed, and with what;
* `Agree`: they return, and find the same file;
* `reads_iff`: `fat12_read_file` returns unless it finds an entry whose chain does not end;
* `agree_iff`: **they agree exactly if both return, and neither finds anything, or both find entries of
  the same length with the same contents**;
* `not_agree`: a file in a subdirectory.
-/

namespace AdvancedOS

variable {s s₁ s₂ : Fs} {v : Volume} {l l' : Loc} {cs : List FatIdx} {name : CStr} {i : RootIdx}
  {x : List Sector × Word} {e : FileEntry}

/-- The entry at `i` is the first one of the root directory under `name`. -/
def FirstInRoot (s : Fs) (name : CStr) (i : RootIdx) : Prop :=
  fat12ConstructFileName (s.rootDir i) = name ∧
    ∀ j < i, fat12ConstructFileName (s.rootDir j) ≠ name

theorem readFile_iff : (∃ s₁, fat12ReadFile name s = .ok (some x) s₁) ↔
    ∃ i cs, FirstInRoot s name i ∧ s.volume.Chain (.root i) cs ∧
      x = (cs.map (clusterSector s.disk), (s.rootDir i).fileLength) := by
  constructor
  · rintro ⟨s₁, h⟩
    have hend : Ends (fat12ReadFile name) s (fun o _ => ∀ x ∈ o, ∃ i cs, FirstInRoot s name i ∧
        s.volume.Chain (.root i) cs ∧
          x = (cs.map (clusterSector s.disk), (s.rootDir i).fileLength)) fun _ _ => True := by
      refine ends_fat12ReadFile (fun _ x hx => ?_) (fun i hi cs hcs x hx => ?_)
        fun _ _ _ _ _ _ => trivial
      · cases hx
      · cases hx
        exact ⟨i, cs, findRoot_iff.mp hi, hcs, rfl⟩
    exact hend.of_ok h x rfl
  · rintro ⟨i, cs, hi, hcs, rfl⟩
    exact ⟨_, fat12ReadFile_eq (findRoot_iff.mpr hi) hcs⟩

theorem findEntry_iff : (∃ p s₂, fat12FindEntry name s = .ok (some p) s₂ ∧ s₂.entryAt p = e) ↔
    Readable s ∧ ∃ l, FirstListed s name l ∧ s.volume.entry l = e := by
  have hresolves : Resolves name s (some e) ↔
      ∃ p s₂, fat12FindEntry name s = .ok (some p) s₂ ∧ s₂.entryAt p = e := by
    constructor
    · rintro ⟨p, s₂, h, hp⟩
      cases p with
      | none => cases hp
      | some p => exact ⟨p, s₂, h, Option.some.inj hp⟩
    · rintro ⟨p, s₂, h, hp⟩
      exact ⟨some p, s₂, h, congrArg some hp⟩
  rw [← hresolves]
  constructor
  · intro h
    have hr : Readable s := h.elim fun _ h => h.elim fun _ h => readable_of_find h.1
    rw [resolves_iff hr, Option.map_eq_some_iff] at h
    exact ⟨hr, h.imp fun l hl => ⟨foundAt_eq_some.mp hl.1, hl.2⟩⟩
  · rintro ⟨hr, l, hl, he⟩
    rw [resolves_iff hr, foundAt_eq_some.mpr hl, Option.map_some, he]

/-- Both return, so nothing has been read past the end of a buffer. `fat12_read_file` succeeds where
`fat12_find_entry` returns an entry, and then reads the length of that entry and the contents of its
chain. -/
structure Agree (name : CStr) (s : Fs) : Prop where
  reads : ∃ o s₁, fat12ReadFile name s = .ok o s₁
  finds : ∃ p s₂, fat12FindEntry name s = .ok p s₂
  succeeds : (∃ x s₁, fat12ReadFile name s = .ok (some x) s₁) ↔
    ∃ p s₂, fat12FindEntry name s = .ok (some p) s₂
  contents : ∀ x s₁ p s₂, fat12ReadFile name s = .ok (some x) s₁ →
    fat12FindEntry name s = .ok (some p) s₂ → x.2 = (s₂.entryAt p).fileLength ∧
      ∃ cs, FatChain s.fat ((s₂.entryAt p).startCluster.setWidth 32) cs ∧
        x.1 = cs.map (clusterSector s.disk)

/-- The two entries have the same length, and chains with the same contents. -/
def SameContents (v : Volume) (l l' : Loc) : Prop :=
  (v.entry l).fileLength = (v.entry l').fileLength ∧
    ∃ cs cs', v.Chain l cs ∧ v.Chain l' cs' ∧
      cs.map (clusterSector v.disk) = cs'.map (clusterSector v.disk)

theorem FirstInRoot.unique {j : RootIdx} (h : FirstInRoot s name i) (h' : FirstInRoot s name j) :
    i = j := Option.some.inj ((findRoot_iff.mpr h).symm.trans (findRoot_iff.mpr h'))

theorem reads_iff : (∃ o s₁, fat12ReadFile name s = .ok o s₁) ↔
    ∀ i, FirstInRoot s name i → ∃ cs, s.volume.Chain (.root i) cs := by
  constructor
  · rintro ⟨o, s₁, h⟩ i hi
    have hfirst := findRoot_iff.mpr hi
    have hend : Ends (fat12ReadFile name) s (fun _ _ => ∃ cs, s.volume.Chain (.root i) cs)
        fun _ _ => True := by
      refine ends_fat12ReadFile (fun hn => ?_) (fun j hj cs hcs => ?_) fun _ _ _ _ _ _ => trivial
      · cases hn.symm.trans hfirst
      · cases hj.symm.trans hfirst
        exact ⟨cs, hcs⟩
    exact hend.of_ok h
  · intro h
    have hend : Ends (fat12ReadFile name) s (fun _ _ => True) fun _ _ => False := by
      refine ends_fat12ReadFile (fun _ => trivial) (fun _ _ _ _ => trivial) fun i hi e s' he _ => ?_
      obtain ⟨cs, hcs⟩ := h i (findRoot_iff.mp hi)
      cases he.symm.trans (follow_eq_ok.mpr hcs)
    obtain ⟨o, s₁, ho, -⟩ := exists_ok_iff.mpr hend
    exact ⟨o, s₁, ho⟩

theorem exists_read_iff (h : ∀ i, FirstInRoot s name i → ∃ cs, s.volume.Chain (.root i) cs) :
    (∃ x s₁, fat12ReadFile name s = .ok (some x) s₁) ↔ ∃ i, FirstInRoot s name i := by
  simp only [readFile_iff]
  constructor
  · rintro ⟨x, i, cs, hi, -⟩
    exact ⟨i, hi⟩
  · rintro ⟨i, hi⟩
    obtain ⟨cs, hcs⟩ := h i hi
    exact ⟨_, i, cs, hi, hcs, rfl⟩

theorem exists_found_iff (hr : Readable s) :
    (∃ p s₂, fat12FindEntry name s = .ok (some p) s₂) ↔ ∃ l, FirstListed s name l := by
  constructor
  · rintro ⟨p, s₂, h⟩
    obtain ⟨-, l, hl, -⟩ := findEntry_iff.mp ⟨p, s₂, h, rfl⟩
    exact ⟨l, hl⟩
  · rintro ⟨l, hl⟩
    obtain ⟨p, s₂, h, -⟩ := findEntry_iff.mpr ⟨hr, l, hl, rfl⟩
    exact ⟨p, s₂, h⟩

/-- **For every volume, current directory and name: the two agree exactly if the chain of the first
entry of the root directory under the name ends and the current directory fits its buffer, and
neither directory has an entry under the name, or both do and the first ones have the same length and
the same contents.** -/
theorem agree_iff (s : Fs) (name : CStr) : Agree name s ↔
    (∀ i, FirstInRoot s name i → ∃ cs, s.volume.Chain (.root i) cs) ∧ Readable s ∧
      (((∀ i, ¬ FirstInRoot s name i) ∧ ∀ l, ¬ FirstListed s name l) ∨
        ∃ i l, FirstInRoot s name i ∧ FirstListed s name l ∧ SameContents s.volume (.root i) l) := by
  constructor
  · rintro ⟨hread, hfind, hsucceeds, hcontents⟩
    have hread := reads_iff.mp hread
    have hr := finds_iff.mp hfind
    refine ⟨hread, hr, ?_⟩
    rw [exists_read_iff hread, exists_found_iff hr] at hsucceeds
    by_cases h : ∃ l, FirstListed s name l
    · obtain ⟨i, hi⟩ := hsucceeds.mpr h
      obtain ⟨l, hl⟩ := h
      obtain ⟨cs, hcs⟩ := hread i hi
      obtain ⟨s₁, h₁⟩ := readFile_iff.mpr ⟨i, cs, hi, hcs, rfl⟩
      obtain ⟨p, s₂, h₂, he⟩ := findEntry_iff.mpr ⟨hr, l, hl, rfl⟩
      obtain ⟨hlen, cs', hcs', hsec⟩ := hcontents _ _ _ _ h₁ h₂
      rw [he] at hlen hcs'
      exact .inr ⟨i, l, hi, hl, hlen, cs, cs', hcs, hcs', hsec⟩
    · exact .inl ⟨fun i hi => h (hsucceeds.mp ⟨i, hi⟩), fun l hl => h ⟨l, hl⟩⟩
  · rintro ⟨hread, hr, h⟩
    refine ⟨reads_iff.mpr hread, finds_iff.mpr hr, ?_, ?_⟩
    · rw [exists_read_iff hread, exists_found_iff hr]
      rcases h with ⟨hnone, hfound⟩ | ⟨i, l, hi, hl, -⟩
      · exact iff_of_false (fun ⟨i, hi⟩ => hnone i hi) fun ⟨l, hl⟩ => hfound l hl
      · exact iff_of_true ⟨i, hi⟩ ⟨l, hl⟩
    · intro x s₁ p s₂ h₁ h₂
      obtain ⟨j, ds, hj, hds, rfl⟩ := readFile_iff.mp ⟨s₁, h₁⟩
      obtain ⟨-, m, hm, he⟩ := findEntry_iff.mp ⟨p, s₂, h₂, rfl⟩
      rcases h with ⟨hnone, -⟩ | ⟨i, l, hi, hl, hlen, cs, cs', hcs, hcs', hsec⟩
      · exact (hnone j hj).elim
      · obtain rfl := hi.unique hj
        obtain rfl := hl.unique hm
        rw [← he]
        refine ⟨hlen, cs', hcs', ?_⟩
        rw [hds.unique hcs]
        exact hsec

/-- A file in a subdirectory is found and not read. -/
theorem not_agree : ∃ s₀ s, fat12Init nested = .ok () s₀ ∧
    fat12Cd (.ofChars ['a']) s₀ = .ok true s ∧ ¬ Agree (.ofChars ['f']) s := by
  obtain ⟨s₀, s, h₀, hs, hv, hcurr⟩ := nested.exists_entered
  obtain ⟨hr, hl⟩ := nested.found_f hv hcurr
  refine ⟨s₀, s, h₀, hs, fun h => ?_⟩
  obtain ⟨i, hi, -⟩ := (exists_read_iff (reads_iff.mp h.reads)).mp
    (h.succeeds.mpr ((exists_found_iff hr).mpr ⟨_, foundAt_eq_some.mp hl⟩))
  -- nothing in the root directory has the name
  have hroot : s.rootDir = nestedRoot := (congrArg Volume.rootDir hv).trans nested.rootDir_eq
  have hA : fat12ConstructFileName entryA ≠ .ofChars ['f'] := by decide +kernel
  have hG : fat12ConstructFileName (fileEntry 0x47 4) ≠ .ofChars ['f'] := by decide +kernel
  have hfree : fat12ConstructFileName (fun _ => 0) ≠ .ofChars ['f'] := by decide +kernel
  rw [hroot, nestedRoot] at hi
  split_ifs at hi
  · exact hA hi
  · exact hG hi
  · exact hfree hi

end AdvancedOS
