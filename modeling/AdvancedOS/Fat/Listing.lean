import AdvancedOS.Fat.Back
import AdvancedOS.Fat.Walk
import AdvancedOS.Lib.Lookup

/-!
# What is found and what is listed

`fat12_find_entry` looks at the names only, and `fat12_ls` leaves out what is not in use, by a test
of its own.

* `Shown`, `Counted`: the test of `fat12_show_file_entry`, and the directories whose size it finds;
* `lsPrinted`: `fat12_ls` with the entries that it prints;
* `ends_find_places`, `ends_ls_places`: what both do in a directory that can be searched;
* `LookupExact`: the search finds the first entry in use with a name, and those in use are printed;
* `lookup_exact_iff`: **this is so exactly where every entry not in use comes after one in use with
  the same name, no name in use starts with a byte that is taken for the mark of a deleted one, and
  the directories can be counted**;
* `not_lookup_exact`: a free entry is found.
-/

namespace AdvancedOS

variable {s s' : Fs} {v : Volume} {d : Dir} {l l' : Loc} {c : Word} {e : FileEntry} {name : CStr}
  {p : EntryPtr} {o : Option EntryPtr} {E : Halt → Fs → Prop}

/-! ## Printing an entry -/

/-- The test of `fat12_show_file_entry`. -/
def Shown (e : FileEntry) : Prop := e.label = false ∧ e.get 0 ≠ 0 ∧ e.get 0 &&& 0xE5 ≠ 0xE5

instance (e : FileEntry) : Decidable (Shown e) := inferInstanceAs (Decidable (_ ∧ _))

/-- If the entry is that of a directory, its clusters can be counted. -/
def Counted (fat : FatIdx → Word) (e : FileEntry) : Prop :=
  e.directory = true → e.startCluster = 0 ∨ ∃ cs, FatChain fat (e.startCluster.setWidth 32) cs

theorem Shown.inUse (h : Shown e) : InUse e := by
  refine ⟨⟨h.2.1, fun he => h.2.2 ?_⟩, h.1⟩
  rw [he]
  decide

theorem InUse.shown_iff (h : InUse e) : Shown e ↔ e.get 0 &&& 0xE5 ≠ 0xE5 :=
  ⟨fun hs => hs.2.2, fun hb => ⟨h.2, h.1.1, hb⟩⟩

theorem ends_fat12GetNumCluster : Ends (fat12GetNumCluster c) s
    (fun _ s' => s' = s ∧ (c = 0 ∨ ∃ cs, FatChain s.fat c cs))
    fun e _ => c ≠ 0 ∧ (¬ ∃ cs, FatChain s.fat c cs) ∧ (e = .loops ↔ Endless s.fat c) := by
  unfold fat12GetNumCluster
  by_cases h0 : c = 0
  · rw [if_pos h0]
    simp only [ends_bind, ends_get, ends_pure]
    exact ⟨trivial, .inl h0⟩
  · rw [if_neg h0]
    refine numClusterLoop_ends.mono ?_ fun e _ he => ?_
    · rintro _ s' ⟨cs, hcs, -, rfl⟩
      exact ⟨rfl, .inr ⟨cs, follow_eq_ok.mp hcs⟩⟩
    · have hf : follow s.fat c = .error e := he
      refine ⟨h0, ?_, by rw [endless_iff, hf, Except.error.injEq]⟩
      rintro ⟨cs, hcs⟩
      rw [follow_eq_ok.mpr hcs] at hf
      cases hf

theorem setWidth_eq_zero {x : BitVec 16} : x.setWidth 32 = 0 ↔ x = 0 := by
  constructor
  · intro h
    have hn := congrArg BitVec.toNat h
    rw [BitVec.toNat_setWidth_of_le (by decide)] at hn
    exact BitVec.eq_of_toNat_eq hn
  · rintro rfl
    rfl

theorem ends_show (e : FileEntry) : Ends (fat12ShowFileEntry e) s
    (fun b s' => b = decide (Shown e) ∧ s' = s ∧ (Shown e → Counted s.fat e))
    fun h _ => Shown e ∧ ¬ Counted s.fat e ∧
      (h = .loops ↔ Endless s.fat (e.startCluster.setWidth 32)) := by
  have htest : ((!e.label) = true ∧ e.get 0 ≠ 0 ∧ e.get 0 &&& 0xE5 ≠ 0xE5) ↔ Shown e := by
    rw [Shown, Bool.not_eq_true']
  simp only [fat12ShowFileEntry, ends_bind, ends_ite, ends_pure, htest]
  refine ⟨fun hs => ⟨fun hd => ?_, fun hd => ?_⟩, fun hs => ?_⟩
  · refine ends_fat12GetNumCluster.mono ?_ fun _ _ he => ⟨hs, fun hc => ?_, he.2.2⟩
    · rintro _ s' ⟨rfl, hc⟩
      exact ⟨(decide_eq_true hs).symm, rfl, fun _ _ => hc.imp_left setWidth_eq_zero.mp⟩
    · rcases hc hd with h0 | hc
      · exact he.1 (setWidth_eq_zero.mpr h0)
      · exact he.2.1 hc
  · exact ⟨(decide_eq_true hs).symm, trivial, fun _ hd' => (hd hd').elim⟩
  · exact ⟨(decide_eq_false hs).symm, trivial, fun h => (hs h).elim⟩

/-! ## Printing a directory -/

/-- The entries `f` at `l` are shown, and those that are printed. -/
def printed {α : Type} (f : α → FileEntry) : List α → FsKern (List α)
  | [] => pure []
  | i :: is => do
    let shown ← fat12ShowFileEntry (f i)
    let rest ← printed f is
    return if shown then i :: rest else rest

/-- `fat12_ls`, with the entries that it prints. -/
def lsPrinted : FsKern (List EntryPtr) := do
  let s ← get
  if s.currDir = FAT_ROOT_REGION_START then
    return (← printed s.rootDir (List.finRange FAT_NUM_ROOT_ENTRY)).map .root
  else
    readSubdir (BitVec.ofNat 32 s.currDir)
    let s ← get
    return (← printed s.subdir (List.finRange FAT_NUM_DIR_ENTRY)).map .sub

theorem forM_show_cons {α : Type} (f : α → FileEntry) (i : α) (l : List α) :
    ((i :: l).forM fun i => do let _ ← fat12ShowFileEntry (f i)) =
      fat12ShowFileEntry (f i) >>= fun _ => (l.forM fun i => do
        let _ ← fat12ShowFileEntry (f i)) := bind_assoc _ _ _

theorem forM_printed {α : Type} (f : α → FileEntry) (l : List α) :
    (l.forM fun i => do let _ ← fat12ShowFileEntry (f i)) = printed f l >>= fun _ => pure ⟨⟩ := by
  induction l with
  | nil => rfl
  | cons i l ih =>
    rw [forM_show_cons, ih]
    simp only [printed, bind_assoc, pure_bind]

theorem fat12Ls_eq : fat12Ls = lsPrinted >>= fun _ => pure ⟨⟩ := by
  unfold fat12Ls lsPrinted
  simp only [forM_printed, bind_assoc]
  congr 1
  funext s
  by_cases h : s.currDir = FAT_ROOT_REGION_START
  · simp only [if_pos h, bind_assoc, pure_bind]
  · simp only [if_neg h, bind_assoc, pure_bind]

theorem ends_printed {α : Type} (f : α → FileEntry) (l : List α) : Ends (printed f l) s
    (fun r s' => r = l.filter (Shown <| f ·) ∧ s' = s ∧
      ∀ i ∈ l, Shown (f i) → Counted s.fat (f i))
    fun _ _ => ∃ i ∈ l, Shown (f i) ∧ ¬ Counted s.fat (f i) := by
  induction l with
  | nil => exact (ends_pure _).mpr ⟨rfl, rfl, fun i hi => (List.not_mem_nil hi).elim⟩
  | cons i l ih =>
    simp only [printed, ends_bind]
    refine (ends_show (f i)).mono ?_ fun _ _ he => ⟨i, List.mem_cons_self, he.1, he.2.1⟩
    rintro b s₁ ⟨rfl, rfl, hi⟩
    refine ih.mono ?_ fun _ _ he => he.imp fun j hj => ⟨List.mem_cons_of_mem _ hj.1, hj.2⟩
    rintro r s₂ ⟨rfl, rfl, hl⟩
    refine (ends_pure _).mpr ⟨?_, rfl, ?_⟩
    · rw [List.filter_cons]
    · rintro j hj
      rcases List.mem_cons.mp hj with rfl | hj
      · exact hi
      · exact hl j hj

/-! ## What is looked through -/

/-- The places of the entries that `fat12_find_entry` and `fat12_ls` look through. -/
def scanned (s : Fs) : List Loc :=
  if s.currDir = FAT_ROOT_REGION_START then (List.finRange FAT_NUM_ROOT_ENTRY).map .root
  else (fatIdx (BitVec.ofNat 32 s.currDir)).elim [] fun c =>
    (List.finRange FAT_NUM_DIR_ENTRY).map (.sub c)

/-- After a call that started in `s`, the pointer is to the entry at `l`. -/
inductive PointsTo (s s' : Fs) : EntryPtr → Loc → Prop
  | root (i : RootIdx) : s'.rootDir i = s.rootDir i → PointsTo s s' (.root i) (.root i)
  | sub (c : FatIdx) (k : SubIdx) : fatIdx (BitVec.ofNat 32 s.currDir) = some c →
      s'.subdir k = s.volume.entry (.sub c k) → PointsTo s s' (.sub k) (.sub c k)

theorem PointsTo.unique (h : PointsTo s s' p l) (h' : PointsTo s s' p l') : l = l' := by
  cases h with
  | root i => cases h'; rfl
  | sub c k hc =>
    cases h' with
    | sub c' _ hc' => rw [Option.some.inj (hc.symm.trans hc')]

theorem foundAt_eq_scanned (folder : CStr) : foundAt s folder =
    (scanned s).find? fun l => fat12ConstructFileName (s.volume.entry l) = folder := by
  unfold foundAt scanned
  by_cases h : s.currDir = FAT_ROOT_REGION_START
  · rw [if_pos h, if_pos h, List.find?_map]
    rfl
  · rw [if_neg h, if_neg h]
    cases hc : fatIdx (BitVec.ofNat 32 s.currDir) with
    | none => rfl
    | some c =>
      rw [Option.bind_some, Option.elim_some, List.find?_map]
      rfl

theorem scanned_eq_places (hcurr : s.currDir = s.volume.number d)
    (hd : ∀ l, d = .sub l → Searchable s.volume l) : scanned s = s.volume.places d := by
  cases d with
  | root => exact if_pos hcurr
  | sub l =>
    obtain ⟨hne, c, hc⟩ := hd l rfl
    have hidx : fatIdx (BitVec.ofNat 32 s.currDir) = some c := ((chain_currDir hcurr).mpr hc).head
    rw [scanned, if_neg fun h => hne (hcurr.symm.trans h), hidx, places_sub hc,
      List.flatMap_singleton, Option.elim_some]

theorem rel_map {α β γ : Type} {R : β → γ → Prop} {f : α → β} {g : α → γ} (o : Option α)
    (h : ∀ a, R (f a) (g a)) : Option.Rel R (o.map f) (o.map g) := by
  cases o with
  | none => exact .none
  | some a => exact .some (h a)

/-- **The search returns a pointer to what it finds.** -/
theorem ends_find_scanned (h : Readable s) : Ends (fat12FindEntry name) s
    (fun p s' => Option.Rel (PointsTo s s') p (foundAt s name)) E := by
  refine ends_fat12FindEntry (fun hroot => ?_) (fun hne c hc => ?_) fun hne e s' hno => ?_
  · rw [foundAt, if_pos hroot]
    exact rel_map _ fun i => .root i rfl
  · rw [foundAt, if_neg hne, hc.head, Option.bind_some]
    exact rel_map _ fun k => .sub c k hc.head rfl
  · obtain ⟨c, hc⟩ := h.resolve_left hne
    exact (hno c hc).elim

theorem ends_ls_scanned (h : Readable s) : Ends lsPrinted s
    (fun ps s' => List.Forall₂ (PointsTo s s') ps
      ((scanned s).filter fun l => Shown (s.volume.entry l)) ∧
        ∀ l ∈ scanned s, Shown (s.volume.entry l) → Counted s.fat (s.volume.entry l))
    fun _ _ => ¬ ∀ l ∈ scanned s, Shown (s.volume.entry l) → Counted s.fat (s.volume.entry l) := by
  simp only [lsPrinted, ends_bind, ends_get, ends_ite, ends_pure]
  refine ⟨fun hroot => ?_, fun hne => ?_⟩
  · have hscan : scanned s = (List.finRange FAT_NUM_ROOT_ENTRY).map .root := if_pos hroot
    rw [hscan]
    refine (ends_printed _ _).mono ?_ ?_
    · rintro _ s' ⟨rfl, rfl, hcount⟩
      refine ⟨?_, List.forall_mem_map.mpr hcount⟩
      rw [List.filter_map, List.forall₂_map_left_iff, List.forall₂_map_right_iff]
      exact List.forall₂_same.mpr fun i _ => .root i rfl
    · rintro _ s' ⟨i, hi, hshown, hcount⟩ hall
      exact hcount (hall (.root i) (List.mem_map_of_mem hi) hshown)
  · obtain ⟨c, hc⟩ := h.resolve_left hne
    have hscan : scanned s = (List.finRange FAT_NUM_DIR_ENTRY).map (.sub c) := by
      rw [scanned, if_neg hne, hc.head, Option.elim_some]
    rw [hscan]
    refine ends_readSubdir (fun i hi => ?_) fun e s' hno => (hno c hc).elim
    obtain rfl : c = i := List.singleton_inj.mp (hc.unique hi)
    refine (ends_printed _ _).mono ?_ ?_
    · rintro _ s' ⟨rfl, rfl, hcount⟩
      refine ⟨?_, List.forall_mem_map.mpr hcount⟩
      rw [List.filter_map, List.forall₂_map_left_iff, List.forall₂_map_right_iff]
      exact List.forall₂_same.mpr fun k _ => .sub c k hc.head rfl
    · rintro _ s' ⟨k, hk, hshown, hcount⟩ hall
      exact hcount (hall (.sub c k) (List.mem_map_of_mem hk) hshown)

/-! ## The result -/

/-- In the directory `d`, the search finds the first entry in use with a name, and the entries that
are printed are those in use. -/
structure LookupExact (s : Fs) (d : Dir) : Prop where
  find : ∀ name : CStr, name.toList ≠ [] → ∃ p s', fat12FindEntry name s = .ok p s' ∧
    Option.Rel (PointsTo s s') p ((s.volume.places d).find? fun l =>
      InUse (s.volume.entry l) ∧ fat12ConstructFileName (s.volume.entry l) = name)
  ls : ∃ ps s', lsPrinted s = .ok ps s' ∧ List.Forall₂ (PointsTo s s') ps
    ((s.volume.places d).filter fun l => InUse (s.volume.entry l))

/-- The directory can be searched; an entry that is not in use comes after one in use with the same
name, or has none; no entry in use is taken for a deleted one; and the directories can be
counted. -/
structure Plain (v : Volume) (d : Dir) : Prop where
  searchable : ∀ l, d = .sub l → Searchable v l
  first : ∀ pre l post, v.places d = pre ++ l :: post → ¬ InUse (v.entry l) →
    (fat12ConstructFileName (v.entry l)).toList ≠ [] → ∃ l' ∈ pre, InUse (v.entry l') ∧
      fat12ConstructFileName (v.entry l') = fat12ConstructFileName (v.entry l)
  bits : ∀ l ∈ v.places d, InUse (v.entry l) → (v.entry l).get 0 &&& 0xE5 ≠ 0xE5
  counted : ∀ l ∈ v.places d, InUse (v.entry l) → Counted v.fat (v.entry l)

/-- The subdirectory is taken for the root directory, there is nothing in it, and nothing to be
found or shown in the root directory. -/
structure Blank (v : Volume) (d : Dir) : Prop where
  number : v.number d = FAT_ROOT_REGION_START
  sub : d ≠ .root
  unused : ∀ l ∈ v.places d, ¬ InUse (v.entry l)
  unnamed : ∀ i, (fat12ConstructFileName (v.rootDir i)).toList = []
  hidden : ∀ i, ¬ Shown (v.rootDir i)

theorem rel_unique {x y : Option Loc} (h : Option.Rel (PointsTo s s') o x)
    (h' : Option.Rel (PointsTo s s') o y) : x = y := by
  cases h with
  | none => cases h'; rfl
  | some h => cases h' with
    | some h' => rw [h.unique h']

/-- **The results are what is found, and shown, in what is looked through.** -/
theorem lookupExact_iff_scanned (h : Readable s) : LookupExact s d ↔
    (∀ name : CStr, name.toList ≠ [] → foundAt s name = (s.volume.places d).find? fun l =>
      InUse (s.volume.entry l) ∧ fat12ConstructFileName (s.volume.entry l) = name) ∧
    ((scanned s).filter fun l => Shown (s.volume.entry l)) =
      ((s.volume.places d).filter fun l => InUse (s.volume.entry l)) ∧
    ∀ l ∈ scanned s, Shown (s.volume.entry l) → Counted s.fat (s.volume.entry l) := by
  constructor
  · rintro ⟨hfind, ps, s', hls, hps⟩
    refine ⟨fun name hname => ?_, ?_⟩
    · obtain ⟨p, s₁, hf, hp⟩ := hfind name hname
      exact rel_unique ((ends_find_scanned (E := fun _ _ => True) h).of_ok hf) hp
    · obtain ⟨hshown, hcount⟩ := (ends_ls_scanned h).of_ok hls
      exact ⟨List.right_unique_forall₂' (fun _ _ _ h h' => h.unique h') hshown hps, hcount⟩
  · rintro ⟨hfind, hls, hcount⟩
    refine ⟨fun name hname => ?_, ?_⟩
    · rw [← hfind name hname]
      exact exists_ok_iff.mpr (ends_find_scanned h)
    · rw [← hls]
      exact exists_ok_iff.mpr ((ends_ls_scanned h).mono (fun _ _ hp => hp.1)
        fun _ _ hno => hno hcount)

theorem lookupExact_iff_plain (hcurr : s.currDir = s.volume.number d)
    (hd : ∀ l, d = .sub l → Searchable s.volume l) : LookupExact s d ↔ Plain s.volume d := by
  have hfirst := @Lookup.filtered_iff _ _ _ (fun l => InUse (s.volume.entry l)) _
    (fun l => fat12ConstructFileName (s.volume.entry l)) (s.volume.places d)
    fun name => name.toList ≠ []
  rw [lookupExact_iff_scanned (readable_of_searchable hcurr hd), scanned_eq_places hcurr hd]
  simp only [foundAt_eq_scanned, scanned_eq_places hcurr hd]
  constructor
  · rintro ⟨hfind, hls, hcount⟩
    have hshown : ∀ l ∈ s.volume.places d, InUse (s.volume.entry l) → Shown (s.volume.entry l) := by
      intro l hl hu
      have hmem : l ∈ (s.volume.places d).filter fun l => InUse (s.volume.entry l) :=
        List.mem_filter.mpr ⟨hl, decide_eq_true hu⟩
      rw [← hls] at hmem
      exact of_decide_eq_true (List.mem_filter.mp hmem).2
    exact ⟨hd, hfirst.mp hfind, fun l hl hu => hu.shown_iff.mp (hshown l hl hu),
      fun l hl hu => hcount l hl (hshown l hl hu)⟩
  · intro h
    refine ⟨hfirst.mpr h.first, List.filter_congr fun l hl => ?_,
      fun l hl hs => h.counted l hl hs.inUse⟩
    exact decide_eq_decide.mpr ⟨Shown.inUse, fun hu => hu.shown_iff.mpr (h.bits l hl hu)⟩

theorem ne_root_of_mem_places {m : Loc} (hl : l ∈ v.places (.sub m)) (i : RootIdx) :
    l ≠ .root i := by
  rintro rfl
  unfold Volume.places at hl
  simp only at hl
  split at hl
  · obtain ⟨c, -, hc⟩ := List.mem_flatMap.mp hl
    obtain ⟨k, -, hk⟩ := List.mem_map.mp hc
    cases hk
  · cases hl

/-- **In a subdirectory that is taken for the root directory.** -/
theorem lookupExact_iff_blank {m : Loc} (hcurr : s.currDir = s.volume.number (.sub m))
    (hroot : s.currDir = FAT_ROOT_REGION_START) :
    LookupExact s (.sub m) ↔ Blank s.volume (.sub m) := by
  have hscan : scanned s = (List.finRange FAT_NUM_ROOT_ENTRY).map .root := if_pos hroot
  have hmem : ∀ {l}, l ∈ scanned s → ∃ i, l = .root i := by
    intro l hl
    rw [hscan] at hl
    obtain ⟨i, -, rfl⟩ := List.mem_map.mp hl
    exact ⟨i, rfl⟩
  rw [lookupExact_iff_scanned (.inl hroot)]
  constructor
  · rintro ⟨hfind, hls, -⟩
    have hin : ∀ i : RootIdx, Loc.root i ∈ scanned s := fun i =>
      hscan ▸ List.mem_map_of_mem (List.mem_finRange i)
    refine ⟨hcurr.symm.trans hroot, by simp, fun l hl hu => ?_, fun i => ?_, fun i hs => ?_⟩
    · have hl' : l ∈ (s.volume.places (.sub m)).filter fun l => InUse (s.volume.entry l) :=
        List.mem_filter.mpr ⟨hl, decide_eq_true hu⟩
      rw [← hls] at hl'
      obtain ⟨i, rfl⟩ := hmem (List.mem_filter.mp hl').1
      exact ne_root_of_mem_places hl i rfl
    · by_contra hname
      have hf := hfind _ hname
      rw [foundAt_eq_scanned] at hf
      have hsome : ((scanned s).find? fun l => fat12ConstructFileName (s.volume.entry l) =
          fat12ConstructFileName (s.volume.rootDir i)).isSome := by
        rw [List.find?_isSome]
        exact ⟨_, hin i, decide_eq_true rfl⟩
      obtain ⟨l, hl⟩ := Option.isSome_iff_exists.mp hsome
      obtain ⟨j, rfl⟩ := hmem (List.mem_of_find?_eq_some hl)
      exact ne_root_of_mem_places (List.mem_of_find?_eq_some (hf ▸ hl)) j rfl
    · have hl : Loc.root i ∈ (scanned s).filter fun l => Shown (s.volume.entry l) :=
        List.mem_filter.mpr ⟨hin i, decide_eq_true hs⟩
      rw [hls] at hl
      exact ne_root_of_mem_places (List.mem_filter.mp hl).1 i rfl
  · intro h
    have hnone : ∀ l ∈ scanned s, ¬ Shown (s.volume.entry l) := by
      intro l hl
      obtain ⟨i, rfl⟩ := hmem hl
      exact h.hidden i
    refine ⟨fun name hname => ?_, ?_, fun l hl hs => (hnone l hl hs).elim⟩
    · rw [foundAt_eq_scanned, List.find?_eq_none.mpr fun l hl => ?_, List.find?_eq_none.mpr
        fun l hl => ?_]
      · simpa using fun hu => (h.unused l hl hu).elim
      · obtain ⟨i, rfl⟩ := hmem hl
        simp only [decide_eq_true_eq]
        rintro rfl
        exact hname (h.unnamed i)
    · rw [List.filter_eq_nil_iff.mpr fun l hl => ?_, List.filter_eq_nil_iff.mpr fun l hl => ?_]
      · simpa using h.unused l hl
      · simpa using hnone l hl

/-- **In every directory, of any volume: the search finds the first entry in use with a name and
`fat12_ls` prints the entries in use exactly if the directory can be searched, every entry not in
use has no name or comes after one in use with the same name, no entry in use starts with a byte
that holds all bits of `0xE5`, and the directories in it can be counted**, or if there is nothing in
it, and nothing in the root directory that it is taken for. -/
theorem lookup_exact_iff (hcurr : s.currDir = s.volume.number d) :
    LookupExact s d ↔ Plain s.volume d ∨ Blank s.volume d := by
  cases d with
  | root =>
    rw [lookupExact_iff_plain hcurr fun l hl => by cases hl]
    exact ⟨.inl, fun h => h.resolve_right fun hb => hb.sub rfl⟩
  | sub m =>
    by_cases hroot : s.currDir = FAT_ROOT_REGION_START
    · rw [lookupExact_iff_blank hcurr hroot]
      exact ⟨.inr, fun h => h.resolve_left fun hp =>
        (hp.searchable m rfl).cluster (hcurr.symm.trans hroot)⟩
    · constructor
      · intro h
        have hd : ∀ l, Dir.sub m = .sub l → Searchable s.volume l := by
          rintro l ⟨⟩
          obtain ⟨p, s', hf, -⟩ := h.find dot (by decide)
          obtain ⟨c, hc⟩ := (readable_of_find hf).resolve_left hroot
          exact ⟨fun hn => hroot (hcurr.trans hn), c, (chain_currDir hcurr).mp hc⟩
        exact .inl ((lookupExact_iff_plain hcurr hd).mp h)
      · rintro (h | h)
        · exact (lookupExact_iff_plain hcurr h.searchable).mpr h
        · exact (hroot (hcurr.trans h.number)).elim

/-! ## Free entries -/

/-- A free entry that is listed under no name. -/
def blankEntry : FileEntry := .ofList (0 :: List.replicate 10 0x20)

/-- A drive with a directory and free entries without a name. -/
def blankRest : Fs :=
  { formatted with
    disk := driveOf (fun _ => 0xFFF) (fun i => if i = 0 then entryA else blankEntry) fun _ _ => 0 }

theorem plain_blankRest : Plain (onDrive blankRest.disk) .root := by
  have hroot : (onDrive blankRest.disk).rootDir = fun i => if i = 0 then entryA else blankEntry :=
    onDrive_driveOf_rootDir
  have hfat : (onDrive blankRest.disk).fat = fun _ => 0xFFF :=
    onDrive_driveOf_fat fun _ => by decide
  have hA : InUse entryA := by decide
  have hblank : ¬ InUse blankEntry := by decide
  have hname : (fat12ConstructFileName blankEntry).toList = [] := by decide +kernel
  -- an entry is the directory or free
  have hentry : ∀ l ∈ (onDrive blankRest.disk).places .root,
      (onDrive blankRest.disk).entry l = entryA ∨
        (onDrive blankRest.disk).entry l = blankEntry := by
    intro l hl
    obtain ⟨i, -, rfl⟩ := List.mem_map.mp hl
    rw [Volume.entry, hroot]
    by_cases hi : i = 0
    · exact .inl (if_pos hi)
    · exact .inr (if_neg hi)
  refine ⟨(fun l hl => by cases hl), fun pre l post hl hu hne => ?_, fun l hl hu => ?_,
    fun l hl hu _ => ?_⟩
  · rcases hentry l (hl ▸ List.mem_append_right _ List.mem_cons_self) with he | he
    · exact (hu (he ▸ hA)).elim
    · exact (hne (he ▸ hname)).elim
  · rcases hentry l hl with he | he
    · rw [he]
      decide
    · exact (hblank (he ▸ hu)).elim
  · rcases hentry l hl with he | he
    · rw [he, hfat]
      exact .inr ⟨[2], .single (fatIdx_eq_some.mpr (by decide)) (by decide)⟩
    · exact (hblank (he ▸ hu)).elim

/-- There the search and `fat12_ls` find the directory and nothing else. -/
theorem lookup_exact_blankRest : ∃ s, fat12Init blankRest = .ok () s ∧ LookupExact s .root := by
  obtain ⟨s, hs, hv, hdir, -⟩ := exists_init blankRest
  exact ⟨s, hs, (lookup_exact_iff (d := .root) hdir).mpr (.inl (hv ▸ plain_blankRest))⟩

/-- A free entry of zeros is found under the name `.`. -/
theorem not_lookup_exact : ∃ s, fat12Init oneDirectory = .ok () s ∧
    s.currDir = s.volume.number .root ∧ ¬ LookupExact s .root := by
  obtain ⟨s, hs, hv, hdir, -⟩ := exists_init oneDirectory
  refine ⟨s, hs, hdir, fun h => ?_⟩
  have hroot : s.rootDir = oneDirectory.vol.rootDir := congrArg Volume.rootDir hv
  have hfound : foundAt s dot = some (.root 1) := by
    rw [foundAt, if_pos hdir, hroot, oneDirectory.findRoot_dot]
    rfl
  have hspec := ((lookupExact_iff_scanned (.inl hdir)).mp h).1 dot (by decide)
  rw [hfound] at hspec
  have hu := List.find?_some hspec.symm
  have hu := (of_decide_eq_true hu).1
  have hfree : s.volume.entry (.root 1) = fun _ => 0 := by
    rw [hv]
    exact oneDirectory.rootDir_of_ne (by decide)
  rw [hfree] at hu
  exact hu.1.1 rfl

end AdvancedOS
