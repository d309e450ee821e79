import AdvancedOS.Fat.Copy

/-!
# What creating a file takes

* `Visits`: following `fat12_next_sector` from a cluster;
* `create_chain`: **with enough free clusters and an unused entry, the new file has the first free
  clusters**;
* `CreationLaw`: a creation succeeds as a whole or changes nothing and says so;
* `creation_law_iff`: **when a call meets this**, which is only where nothing is missing: no call
  looks before it starts.
-/

namespace AdvancedOS

open Function (update)

variable {s s' : Fs} {op : FsOp} {v : Volume} {size : ℤ} {name t x : CStr} {i : RootIdx}
  {c last : Word} {cs : List FatIdx} {j : FatIdx}

/-! ## The chain of a new file -/

/-- Following `fat12_next_sector` from `c` visits the clusters `l` and stops at the entry `last`. -/
inductive Visits (s : Fs) : Word → List Word → Word → Prop
  | last {c last : Word} : fat12NextSector c s = .ok (last, false) s → Visits s c [c] last
  | next {c d last : Word} {l : List Word} : fat12NextSector c s = .ok (d, true) s →
      Visits s d l last → Visits s c (c :: l) last

theorem fat12NextSector_eq (h : fatIdx c = some j) :
    fat12NextSector c s = .ok (s.fat j, !decide (Stops (s.fat j))) s := by
  refine (ends_result _ (· = _)).mp (ends_fat12NextSector.mpr ⟨fun i hi => ?_, fun hn => ?_⟩)
  · rw [h] at hi
    cases hi
    rfl
  · rw [h] at hn
    cases hn

theorem FatChain.visits (h : FatChain s.fat c cs) (hl : ∀ j ∈ cs, fatNext s.fat j = none →
    s.fat j = last) : Visits s c (cs.map fun j : FatIdx => BitVec.ofNat 32 j) last := by
  induction cs generalizing c with
  | nil => exact absurd rfl h.ne_nil
  | cons j cs ih =>
    have hn := fat12NextSector_eq (s := s) h.head
    have hc := eq_of_fatIdx h.head
    rw [List.map_cons, ← hc]
    rcases h.cases_head with ⟨hs, rfl⟩ | ⟨hs, hcs⟩
    · have hj : s.fat j = last := hl j List.mem_cons_self (if_pos hs)
      refine .last ?_
      rw [hn, hj, ← hj]
      simp [hs]
    · refine .next ?_ (ih hcs fun i hi => hl i (List.mem_cons_of_mem j hi))
      rw [hn]
      simp [hs]

theorem freeClusters_sorted (fat : FatIdx → Word) : (freeClusters fat).Pairwise (· < ·) := by
  unfold freeClusters
  exact ((List.pairwise_lt_finRange _).sublist (List.drop_sublist 2 _)).filter _

/-- **If there are enough free clusters and an entry of the root directory has never been used, then
following the table from the start cluster of the new entry visits as many clusters as the size
takes, all of them free before and in increasing order, and stops at `0x0FFF`. Nothing else in the
table or in the directory has changed, and the entry has the size.** -/
theorem create_chain (addr : List Byte) (h1 : 1 ≤ size)
    (hfree : clustersFor size.toNat ≤ (freeClusters s.fat).length)
    (hroot : ∃ i, (s.rootDir i).get 0 = 0) (hbase : (name.before 0x2E).length ≤ 8)
    (hx : name.after 0x2E = some x) (hext : x.length ≤ 3) :
    ∃ (s' : Fs) (i : RootIdx) (cs : List FatIdx), fat12CreateFile addr size name s = .ok () s' ∧
      (s.rootDir i).get 0 = 0 ∧
      cs.length = clustersFor size.toNat ∧ cs.Nodup ∧ cs.Pairwise (· < ·) ∧
      (∀ c ∈ cs, 2 ≤ (c : ℕ) ∧ s.fat c = 0) ∧
      Visits s' ((s'.rootDir i).startCluster.setWidth 32) (cs.map fun c : FatIdx => BitVec.ofNat 32 c)
        0x0FFF ∧
      (∀ c, c ∉ cs → s'.fat c = s.fat c) ∧
      ((s'.rootDir i).fileLength.toNat : ℤ) = size ∧ ∀ j, j ≠ i → s'.rootDir j = s.rootDir j := by
  have h0 : 0 ≤ size := by omega
  have hfit : NameFits name s := .of_after hbase hx hext s
  obtain ⟨i, hi⟩ : ∃ i, newEntry s.rootDir = some i := by
    apply Option.isSome_iff_exists.mp
    obtain ⟨i, hi⟩ := hroot
    unfold newEntry
    rw [List.find?_isSome]
    exact ⟨i, List.mem_finRange i, by simpa using hi⟩
  have hpos : 0 < clustersFor size.toNat := by
    rw [clustersFor]
    omega
  obtain ⟨c, cs, htake, hlaid, hstart⟩ := allocate_enough hpos (numClusters_eq h0) hfree
  have hrun : fat12CreateFile addr size name s = .ok () (s.created size name i) := by
    refine (ends_result _ (· = _)).mp ((ends_fat12CreateFile addr size name).mpr ⟨fun hn => ?_, ?_⟩)
    · rw [hi] at hn
      cases hn
    · intro i' hi'
      rw [hi] at hi'
      cases hi'
      exact ⟨fun _ => rfl, fun hn => absurd hfit hn⟩
  have hfat : (s.created size name i).fat = (allocate (numClusters size) s.fat).1 := rfl
  have hentry : (s.created size name i).rootDir i = enterFile (s.rootDir i) (name.before 0x2E)
      (extensionOf name s) (allocate (numClusters size) s.fat).2 size := Function.update_self ..
  refine ⟨_, i, c :: cs, hrun, newEntry_free hi, ?_, ?_, ?_, fun d hd => ?_, ?_, fun d hd => ?_, ?_,
    fun k hk => Function.update_of_ne hk ..⟩
  · rw [← htake, List.length_take, Nat.min_eq_left hfree]
  · exact hlaid.chain.nodup
  · rw [← htake]
    exact (freeClusters_sorted s.fat).sublist (List.take_sublist _ _)
  · exact mem_freeClusters.mp (List.mem_of_mem_take (htake ▸ hd))
  · rw [hentry, enterFile_startCluster, hstart, ofNat_fatIdx]
    exact FatChain.visits (s := s.created size name i) hlaid.chain hlaid.ends
  · exact hlaid.frame d hd (Option.some_ne_none d).symm
  · rw [hentry, enterFile_fileLength, ofInt_toNat h0 (size_lt hfree)]
    omega

theorem two_free : 2 ≤ (freeClusters formatted.fat).length := by
  obtain ⟨l, hl⟩ := freeClusters_formatted
  have h3 : (3 : FatIdx) ∈ freeClusters formatted.fat := mem_freeClusters.mpr (by decide)
  rw [hl, List.mem_cons] at h3
  rw [hl, List.length_cons]
  exact Nat.succ_le_succ (List.length_pos_of_mem (h3.resolve_left (by decide)))

/-- The file `a.b` of two clusters on a formatted drive. -/
theorem create_chain_twoClusters : ∃ (s' : Fs) (i : RootIdx) (cs : List FatIdx),
    fat12CreateFile [] 600 nameAB formatted = .ok () s' ∧ (formatted.rootDir i).get 0 = 0 ∧
      cs.length = clustersFor (600 : ℤ).toNat ∧ cs.Nodup ∧ cs.Pairwise (· < ·) ∧
      (∀ c ∈ cs, 2 ≤ (c : ℕ) ∧ formatted.fat c = 0) ∧
      Visits s' ((s'.rootDir i).startCluster.setWidth 32)
        (cs.map fun c : FatIdx => BitVec.ofNat 32 c) 0x0FFF ∧
      (∀ c, c ∉ cs → s'.fat c = formatted.fat c) ∧
      ((s'.rootDir i).fileLength.toNat : ℤ) = 600 ∧
      ∀ j, j ≠ i → s'.rootDir j = formatted.rootDir j := by
  have hx : nameAB.after 0x2E = some (.ofChars ['b']) := by decide
  exact create_chain [] (by decide) two_free ⟨0, newEntry_free newEntry_formatted⟩ (by decide) hx
    (by decide)

/-! ## Creations that cannot succeed -/

/-- A call and what its caller is told: `false` for a failure. `fat12_create_file` is `void`, and
`do_fclose` returns the same value always. -/
def FsOp.told : FsOp → FsKern Bool
  | .cp src dst => fat12Cp src dst
  | op => do
    op.code
    return true

/-- There are enough clusters for `size` bytes, and an entry that is unused or deleted. -/
def Creatable (size : ℤ) (v : Volume) : Prop :=
  clustersFor size.toNat ≤ (freeClusters v.fat).length ∧ ∃ i, ¬ Used (v.rootDir i)

/-- One entry of the root directory is filled in, and as many entries of the table change as the
size takes. -/
def EntersOne (size : ℤ) (v v' : Volume) : Prop :=
  (∃ i, ¬ Used (v.rootDir i) ∧ Used (v'.rootDir i) ∧ ∀ j, j ≠ i → v'.rootDir j = v.rootDir j) ∧
    (Finset.univ.filter fun c => v'.fat c ≠ v.fat c).card = clustersFor size.toNat

/-- A file of `size` bytes is entered if this is possible. If not, nothing changes and the caller is
told. -/
def CreationLaw (size : ℤ) (told : Bool) (v v' : Volume) : Prop :=
  (Creatable size v → EntersOne size v v') ∧
    (¬ Creatable size v → v'.fat = v.fat ∧ v'.rootDir = v.rootDir ∧ told = false)

/-- Nothing is missing: there are enough clusters, where none are needed there is at most one that
the loop could take, and some entry has never been used. -/
def Suffices (size : ℤ) (name : CStr) (s : Fs) : Prop :=
  (newEntry s.rootDir).isSome ∧ (name.before 0x2E).toList.head? ≠ some 0xE5 ∧
    (size = 0 ∧ (freeClusters s.fat).length ≤ 1 ∨
      0 < size ∧ clustersFor size.toNat ≤ (freeClusters s.fat).length)

/-- The file that is copied can be read, and fits the buffer. -/
def HasSource (s : Fs) : FsOp → Prop
  | .cp src _ => ∃ i cs, findRoot s.rootDir src = some i ∧
      FatChain s.fat ((s.rootDir i).startCluster.setWidth 32) cs ∧ cs.length ≤ 30
  | _ => True

/-! ### The table -/

variable {fat : FatIdx → Word} {t' : FatIdx → Word}

theorem card_changed (hpos : 0 < clustersFor size.toNat) (h0 : 0 ≤ size)
    (hfree : clustersFor size.toNat ≤ (freeClusters fat).length) :
    (Finset.univ.filter fun c => (allocate (numClusters size) fat).1 c ≠ fat c).card =
      clustersFor size.toNat := by
  obtain ⟨c, cs, htake, hlaid, -⟩ := allocate_enough hpos (numClusters_eq h0) hfree
  have hmem : ∀ d ∈ c :: cs, fat d = 0 := fun d hd =>
    (mem_freeClusters.mp (List.mem_of_mem_take (htake ▸ hd))).2
  have hset : (Finset.univ.filter fun c => (allocate (numClusters size) fat).1 c ≠ fat c) =
      (c :: cs).toFinset := by
    ext d
    rw [Finset.mem_filter, List.mem_toFinset]
    constructor
    · rintro ⟨-, hd⟩
      by_contra hn
      exact hd (hlaid.frame d hn (Option.some_ne_none d).symm)
    · intro hd
      refine ⟨Finset.mem_univ d, ?_⟩
      rw [hmem d hd]
      refine hlaid.chain.ne_zero (fun e he => ?_) hd
      have hs := hlaid.chain.stops_of_getLast he
      rw [hlaid.ends e (List.mem_of_mem_getLast? he) (if_pos hs)]
      decide
  rw [hset, List.toFinset_card_of_nodup hlaid.chain.nodup, ← htake, List.length_take,
    Nat.min_eq_left hfree]

theorem numClusters_zero : numClusters 0 = 0 := by decide

/-- Where no cluster is needed, all free ones are linked: nothing changes if there is at most one. -/
theorem card_changed_zero :
    (Finset.univ.filter fun c => (allocate 0 fat).1 c ≠ fat c).card = 0 ↔
      (freeClusters fat).length ≤ 1 := by
  obtain ⟨hnil, hcons⟩ := @allocate_short fat 0 fun k hk e => by omega
  rw [Finset.card_eq_zero, Finset.filter_eq_empty_iff]
  cases hf : freeClusters fat with
  | nil =>
    rw [hnil hf]
    exact iff_of_true (fun c _ hc => hc rfl) (Nat.zero_le 1)
  | cons i cs =>
    obtain ⟨hlaid, -⟩ := hcons i cs hf
    have hmem : ∀ d ∈ i :: cs, fat d = 0 := fun d hd => (mem_freeClusters.mp (hf ▸ hd)).2
    constructor
    · intro h
      -- the first entry is still zero, so the chain stops there
      have hi : (allocate 0 fat).1 i = 0 := by
        rw [not_not.mp (h (Finset.mem_univ i)), hmem i List.mem_cons_self]
      rcases hlaid.chain.cases_head with ⟨-, rfl⟩ | ⟨hs, -⟩
      · exact Nat.le_refl 1
      · exact (hs (.inl hi)).elim
    · intro h d _ hd
      obtain rfl : cs = [] := List.length_eq_zero_iff.mp (Nat.le_zero.mp (Nat.le_of_succ_le_succ h))
      by_cases hdi : d = i
      · subst hdi
        rcases hlaid.chain.cases_head with ⟨hs, -⟩ | ⟨-, hc⟩
        · apply hd
          rw [hlaid.ends d List.mem_cons_self (if_pos hs), hmem d List.mem_cons_self]
        · exact hc.ne_nil rfl
      · exact hd (hlaid.frame d (by simpa using hdi) (Option.some_ne_none d).symm)

/-! ### The volume -/

theorem creationLaw_create (h0 : 0 ≤ size)
    (hfit : (newEntry s.rootDir).isSome → NameFits name s) :
    CreationLaw size true s.volume
      (s.volume.create size (name.before 0x2E) (extensionOf name s)) ↔ Suffices size name s := by
  have hfat : (s.volume.create size (name.before 0x2E) (extensionOf name s)).fat =
      (allocate (numClusters size) s.fat).1 := Volume.create_fat ..
  cases hn : newEntry s.rootDir with
  | none =>
    refine iff_of_false ?_ (fun h => by simpa [hn] using h.1)
    rintro ⟨hpos, hneg⟩
    by_cases he : Creatable size s.volume
    · obtain ⟨⟨i, hu, hu', -⟩, -⟩ := hpos he
      rw [Volume.create_rootDir_none (v := s.volume) hn] at hu'
      exact hu hu'
    · cases (hneg he).2.2
  | some i =>
    have hroot : (s.volume.create size (name.before 0x2E) (extensionOf name s)).rootDir = _ :=
      Volume.create_rootDir_some hn
    have hi : ¬ Used (s.rootDir i) := fun hu => hu.1 (newEntry_free hn)
    have hf := hfit (by rw [hn]; rfl)
    have hused : Used ((s.volume.create size (name.before 0x2E) (extensionOf name s)).rootDir i) ↔
        (name.before 0x2E).toList.head? ≠ some 0xE5 := by
      rw [hroot, Function.update_self]
      exact used_enterFile hf.before_lt hf.2
    have hother : ∀ j, j ≠ i → (s.volume.create size (name.before 0x2E)
        (extensionOf name s)).rootDir j = s.rootDir j := fun j hj => by
      rw [hroot, Function.update_of_ne hj]
      rfl
    have hone : EntersOne size s.volume
        (s.volume.create size (name.before 0x2E) (extensionOf name s)) ↔
        (name.before 0x2E).toList.head? ≠ some 0xE5 ∧
          (Finset.univ.filter fun c => (allocate (numClusters size) s.fat).1 c ≠ s.fat c).card =
            clustersFor size.toNat := by
      unfold EntersOne
      rw [hfat]
      refine and_congr_left fun _ => ⟨?_, fun h => ⟨i, hi, hused.mpr h, hother⟩⟩
      rintro ⟨k, hk, hk', -⟩
      by_cases hki : k = i
      · rw [← hused, ← hki]
        exact hk'
      · rw [hother k hki] at hk'
        exact (hk hk').elim
    have hentry : ∃ i, ¬ Used (s.volume.rootDir i) := ⟨i, hi⟩
    unfold CreationLaw Suffices
    rw [hn]
    simp only [Option.isSome_some, true_and]
    by_cases hfree : clustersFor size.toNat ≤ (freeClusters s.fat).length
    · have he : Creatable size s.volume := ⟨hfree, hentry⟩
      simp only [he, not_true, false_implies, and_true, true_implies, hone]
      refine and_congr_right fun _ => ?_
      rcases h0.lt_or_eq with hpos | rfl
      · have hc : 0 < clustersFor size.toNat := by
          rw [clustersFor]
          omega
        exact iff_of_true (card_changed hc h0 hfree) (.inr ⟨hpos, hfree⟩)
      · have hz : clustersFor (0 : ℤ).toNat = 0 := rfl
        rw [numClusters_zero, hz, card_changed_zero]
        simp
    · have he : ¬ Creatable size s.volume := fun h => hfree h.1
      simp only [he, not_false_iff, true_implies, false_implies, Bool.true_eq_false, and_false,
        false_iff]
      rintro ⟨-, ⟨rfl, -⟩ | ⟨-, h⟩⟩
      · exact hfree (Nat.zero_le _)
      · exact hfree h

/-! ### The calls -/

theorem told_ok {b : Bool} (hc : creates s op = some (size, name)) (h : op.told s = .ok b s') :
    b = true ∧ HasSource s op ∧ ((newEntry s.rootDir).isSome → NameFits name s) ∧
      s'.volume = s.volume.create size (name.before 0x2E) (extensionOf name s) := by
  have hstep : ∀ (o : FsOp), o.told = (do o.code; return true) → o.told s = .ok b s' →
      creates s o = some (size, name) → b = true ∧
        ((newEntry s.rootDir).isSome → NameFits name s) ∧
        s'.volume = s.volume.create size (name.before 0x2E) (extensionOf name s) := by
    intro o ho hr hcr
    have hends : Ends o.told s (fun b s' => b = true ∧ o.code s = .ok () s') fun _ _ => True := by
      rw [ho]
      simp only [ends_bind, ends_pure, true_and]
      exact ((ends_result o.code (o.code s = ·)).mpr rfl).mono (fun _ _ h => h) fun _ _ _ => trivial
    obtain ⟨hb, hcode⟩ := hends.of_ok hr
    have hs : fsStep s o = some s' := by
      rw [fsStep, hcode]
    refine ⟨hb, fsStep_fits hs _ hcr, ?_⟩
    rw [(fsStep_volume hs).1, effect, hcr]
  cases op with
  | create addr sz nm =>
    obtain ⟨hb, hrest⟩ := hstep _ rfl h hc
    exact ⟨hb, trivial, hrest⟩
  | fclose fp =>
    obtain ⟨hb, hrest⟩ := hstep _ rfl h hc
    exact ⟨hb, trivial, hrest⟩
  | cp src dst =>
    obtain ⟨i, hi, he⟩ := Option.map_eq_some_iff.mp hc
    cases he
    have hcp : fat12Cp src name s = .ok b s' := h
    obtain ⟨rfl, hl⟩ := ((ends_fat12Cp src name).of_ok hcp).2 i hi
    obtain ⟨cs, hchain⟩ : ∃ cs, FatChain s.fat ((s.rootDir i).startCluster.setWidth 32) cs := by
      have hends : Ends (fat12Cp src name) s (fun _ _ => ∃ cs,
          FatChain s.fat ((s.rootDir i).startCluster.setWidth 32) cs) fun _ _ => True := by
        simp only [fat12Cp, ends_bind]
        refine ends_fat12ReadFile (fun hn => ?_) (fun j hj cs hcs => ?_) fun _ _ _ _ _ _ => trivial
        · rw [hi] at hn
          cases hn
        · rw [hi] at hj
          cases hj
          exact Ends.of_forall (fun _ _ => ⟨cs, hcs⟩) fun _ _ => trivial
      exact hends.of_ok hcp
    obtain ⟨h30, hfit⟩ := (fat12Cp_ok_iff hi hchain).mp ⟨true, s', hcp, rfl⟩
    exact ⟨rfl, ⟨i, cs, hi, hchain, h30⟩, hfit, hl.volume⟩
  | rm | fopen | fwrite | fputs => cases hc

/-- A call returns if its source can be read and the name fits. -/
theorem exists_told (hc : creates s op = some (size, name)) (hsrc : HasSource s op)
    (hfit : (newEntry s.rootDir).isSome → NameFits name s) :
    ∃ b s', op.told s = .ok b s' := by
  suffices h : Ends op.told s (fun _ _ => True) fun _ _ => False by
    obtain ⟨b, s', hs, -⟩ := exists_ok_iff.mpr h
    exact ⟨b, s', hs⟩
  have hcreate : ∀ addr sz, Ends (fat12CreateFile addr sz name) s (fun _ _ => True)
      fun _ _ => False := by
    intro addr sz
    rw [ends_fat12CreateFile]
    refine ⟨fun _ => trivial, fun i hi => ⟨fun _ => trivial, fun hn => hn (hfit ?_)⟩⟩
    rw [hi]
    rfl
  cases op with
  | create addr sz nm =>
    cases hc
    simp only [FsOp.told, FsOp.code, ends_bind, ends_pure]
    exact hcreate addr size
  | fclose fp =>
    simp only [creates] at hc
    split_ifs at hc with hw
    cases hc
    simp only [FsOp.told, FsOp.code, doFclose, setMode, changeFile, ends_bind, ends_pure, ends_get,
      ends_ite, ends_changing, ends_outOfBounds, ends_fsEnable]
    have hlen : unused.length < 4 := by decide
    refine ⟨fun _ => (hcreate _ _).mono (fun _ _ _ => ⟨fun _ => trivial, fun hn => hn hlen⟩)
      fun _ _ h => h, fun hn => absurd hw hn⟩
  | cp src dst =>
    obtain ⟨i, cs, hi, hchain, h30⟩ := hsrc
    obtain ⟨j, hj, he⟩ := Option.map_eq_some_iff.mp hc
    cases he
    obtain ⟨b, s', hs, -⟩ := (fat12Cp_ok_iff hi hchain).mpr ⟨h30, hfit⟩
    exact (ends_of_eq_ok (x := fat12Cp src name) hs).mpr trivial
  | rm | fopen | fwrite | fputs => cases hc

/-- **Creating a file, by `fat12_create_file`, `fat12_cp` or `do_fclose`, is all or nothing exactly
if nothing is missing: there are enough free clusters (and at most one if none is needed), an entry
of the root directory has never been used, the name fits and does not begin with the mark of a
deleted file, and a file to be copied can be read into the buffer.** -/
theorem creation_law_iff (hc : creates s op = some (size, name)) (h0 : 0 ≤ size) :
    (∃ told s', op.told s = .ok told s' ∧ CreationLaw size told s.volume s'.volume) ↔
      HasSource s op ∧ NameFits name s ∧ Suffices size name s := by
  constructor
  · rintro ⟨told, s', hs, hlaw⟩
    obtain ⟨rfl, hsrc, hfit, hv⟩ := told_ok hc hs
    rw [hv, creationLaw_create h0 hfit] at hlaw
    exact ⟨hsrc, hfit hlaw.1, hlaw⟩
  · rintro ⟨hsrc, hfit, hsuff⟩
    obtain ⟨b, s', hs⟩ := exists_told hc hsrc fun _ => hfit
    obtain ⟨rfl, -, -, hv⟩ := told_ok hc hs
    refine ⟨true, s', hs, ?_⟩
    rw [hv, creationLaw_create h0 fun _ => hfit]
    exact hsuff

/-- The file `a.b` of one byte is entered on a formatted drive. -/
theorem creation_law_iff_oneByte :
    (∃ told s', oneByte.told formatted = .ok told s' ∧
      CreationLaw 1 told formatted.volume s'.volume) ↔
      HasSource formatted oneByte ∧ NameFits nameAB formatted ∧ Suffices 1 nameAB formatted :=
  @creation_law_iff formatted oneByte 1 nameAB rfl (by decide)

/-- A file without bytes is given all clusters of a formatted drive. -/
theorem not_creation_law : creates formatted (.create [] 0 nameAB) = some (0, nameAB) ∧
    ¬ ∃ told s', FsOp.told (.create [] 0 nameAB) formatted = .ok told s' ∧
      CreationLaw 0 told formatted.volume s'.volume := by
  have hc : creates formatted (.create [] 0 nameAB) = some (0, nameAB) := rfl
  refine ⟨hc, ?_⟩
  rintro ⟨told, s', hs, hlaw⟩
  obtain ⟨rfl, -, hfit, hv⟩ := told_ok hc hs
  rw [hv, creationLaw_create (by decide) hfit] at hlaw
  obtain ⟨-, -, ⟨-, hlen⟩ | ⟨h, -⟩⟩ := hlaw
  · have hone : (freeClusters formatted.fat).length ≤ 1 := hlen
    exact absurd hone (not_le.mpr two_free)
  · exact absurd h (by decide)

end AdvancedOS
