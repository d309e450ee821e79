import AdvancedOS.Fat.Runs

/-!
# Copying a file

`fat12_cp` reads the file and enters a new one with its size. What it has read goes nowhere, since
`write_sectors` is commented out.

* `EightDotThree`: names of the usual form, and what they are listed under;
* `Copyable`: a well-formed volume with a file, a new name, free clusters and a free entry;
* `Copied`: what copying is for;
* `CopyKeeps`: the free clusters hold the bytes already;
* `copied_iff`: **the copy is one exactly then**;
* `not_copied`: a file of one byte.
-/

namespace AdvancedOS

open Function (update)

variable {s s' : Fs} {src dst name t x : CStr} {v : Volume} {i j k : RootIdx} {e : FileEntry}
  {rootDir : RootIdx → FileEntry} {cs ds : List FatIdx} {c : FatIdx}

/-! ## Names -/

/-- A name of one to eight characters, or of these, a dot, and one to three characters. -/
structure EightDotThree (name : CStr) : Prop where
  noSpace : 0x20 ∉ name.toList
  noMark : name.toList.head? ≠ some 0xE5
  pos : 0 < (name.before 0x2E).length
  le_eight : (name.before 0x2E).length ≤ 8
  extension : ∀ x ∈ name.after 0x2E, 0 < x.length ∧ x.length ≤ 3 ∧ 0x2E ∉ x.toList

theorem before_subset (name : CStr) : (name.before 0x2E).toList ⊆ name.toList :=
  List.takeWhile_subset _

theorem after_subset (h : name.after 0x2E = some x) : x.toList ⊆ name.toList := by
  intro b hb
  rw [← CStr.before_append_after h]
  exact List.mem_append_right _ (List.mem_cons_of_mem _ hb)

theorem upToSpace_eq_self {l : List Byte} (h : 0x20 ∉ l) : upToSpace l = l :=
  List.takeWhile_eq_self_iff.mpr fun b hb => by simpa using fun hb2 : b = 0x20 => h (hb2 ▸ hb)

theorem shortName_toList (hs : 0x20 ∉ name.toList) (h8 : (name.before 0x2E).length ≤ 8)
    (x : CStr) : (shortName (name.before 0x2E) x).toList = ((name.before 0x2E).toList ++
      if upToSpace (x.toList.take 3) = [] then [] else 0x2E :: upToSpace (x.toList.take 3)).map
        lowerByte := by
  have hname : upToSpace ((name.before 0x2E).toList.take 8) = (name.before 0x2E).toList := by
    rw [List.take_of_length_le h8]
    exact upToSpace_eq_self fun hm => hs (before_subset name hm)
  have hx : 0 ∉ upToSpace (x.toList.take 3) := fun hm =>
    x.noNul (List.mem_of_mem_take (List.takeWhile_subset _ hm))
  unfold shortName tolower joinName
  rw [hname]
  simp only
  rw [CStr.ofList_of_notMem]
  intro hm
  rcases List.mem_append.mp hm with hm | hm
  · exact (name.before 0x2E).noNul hm
  · split_ifs at hm
    · cases hm
    · rcases List.mem_cons.mp hm with h0 | hm
      · exact absurd h0 (by decide)
      · exact hx hm

/-- The string that a name without a dot is extended with adds nothing. -/
def NoExtension (name : CStr) (s : Fs) : Prop :=
  name.after 0x2E = none →
    upToSpace ((s.mem.cstr 0).toList.take 3) = [] ∧ (s.mem.cstr 0).length < 24

/-- A name in two parts without spaces is listed under its lower case. -/
theorem shortName_eq_tolower (hs : 0x20 ∉ name.toList) (h8 : (name.before 0x2E).length ≤ 8)
    (hx : name.after 0x2E = some x) (hpos : 0 < x.length) (h3 : x.length ≤ 3) :
    shortName (name.before 0x2E) x = tolower name := by
  have hext : upToSpace (x.toList.take 3) = x.toList := by
    rw [List.take_of_length_le h3]
    exact upToSpace_eq_self fun hm => hs (after_subset hx hm)
  ext1
  rw [shortName_toList hs h8, hext, if_neg (List.ne_nil_of_length_pos hpos),
    CStr.before_append_after hx]
  rfl

theorem EightDotThree.shortName_eq (h : EightDotThree name) (hx : name.after 0x2E = some x) :
    shortName (name.before 0x2E) x = tolower name := by
  obtain ⟨hpos, h3, -⟩ := h.extension x hx
  exact shortName_eq_tolower h.noSpace h.le_eight hx hpos h3

theorem EightDotThree.shortName_iff (h : EightDotThree name) (hx : name.after 0x2E = none)
    (m : CStr) :
    shortName (name.before 0x2E) m = tolower name ↔ upToSpace (m.toList.take 3) = [] := by
  have hb := CStr.before_eq_self hx
  constructor
  · intro he
    have hl := congrArg (fun n : CStr => n.toList.length) he
    simp only [shortName_toList h.noSpace h.le_eight, tolower, List.length_map, List.length_append] at hl
    rw [hb] at hl
    split_ifs at hl with hn
    · exact hn
    · rw [List.length_cons] at hl
      omega
  · intro hn
    ext1
    rw [shortName_toList h.noSpace h.le_eight, if_pos hn, List.append_nil, hb]
    rfl

theorem EightDotThree.head (h : EightDotThree name) : ∃ b, name.toList.head? = some b ∧ b ≠ 0x2E ∧
    b ≠ 0xE5 ∧ (tolower name).toList.head? = some (lowerByte b) := by
  have hpos := h.pos
  cases hl : name.toList with
  | nil =>
    have : (name.before 0x2E).toList = [] := by
      change List.takeWhile _ name.toList = []
      rw [hl, List.takeWhile_nil]
    rw [CStr.length, this] at hpos
    exact (Nat.lt_irrefl _ hpos).elim
  | cons b l =>
    refine ⟨b, rfl, ?_, ?_, ?_⟩
    · rintro rfl
      have : (name.before 0x2E).toList = [] := by
        change List.takeWhile _ name.toList = []
        rw [hl, List.takeWhile_cons_of_neg (by simp)]
      rw [CStr.length, this] at hpos
      exact Nat.lt_irrefl _ hpos
    · rintro rfl
      exact h.noMark (by rw [hl]; rfl)
    · change (name.toList.map lowerByte).head? = _
      rw [hl]
      rfl

theorem lowerByte_eq (b : Byte) :
    (lowerByte b = 0x2E → b = 0x2E) ∧ (lowerByte b = 0xE5 → b = 0xE5) := by
  revert b
  decide

theorem EightDotThree.ne_of_not_used (h : EightDotThree name) (he : ¬ Used e) :
    fat12ConstructFileName e ≠ tolower name := by
  obtain ⟨b, -, hdot, hmark, hhead⟩ := h.head
  intro heq
  rw [← heq] at hhead
  by_cases h0 : e.get 0 = 0
  · rcases construct_free h0 with hn | hn
    · rw [hn] at hhead
      cases hhead
    · exact hdot ((lowerByte_eq b).1 (Option.some.inj (hhead.symm.trans hn)))
  · have h5 : e.get 0 = 0xE5 := by
      by_contra h5
      exact he ⟨h0, h5⟩
    have hn := construct_head h0 (by rw [h5]; decide)
    rw [h5] at hn
    exact hmark ((lowerByte_eq b).2 (Option.some.inj (hhead.symm.trans hn)))

/-! ## Reading and copying -/

/-- What reading a file returns. -/
def readResult (name : CStr) (s : Fs) : Option (List Sector × Word) :=
  match fat12ReadFile name s with
  | .ok r _ => r
  | .error _ _ => none

theorem fat12ReadFile_eq (hi : findRoot s.rootDir name = some i)
    (hc : FatChain s.fat ((s.rootDir i).startCluster.setWidth 32) cs) :
    fat12ReadFile name s =
      .ok (some (cs.map (clusterSector s.disk), (s.rootDir i).fileLength)) (s.readOut cs) := by
  refine (ends_result _ (· = _)).mp (ends_fat12ReadFile (fun hn => ?_) (fun j hj ds hds => ?_) ?_)
  · rw [hi] at hn
    cases hn
  · rw [hi] at hj
    cases hj
    rw [hc.unique hds]
  · intro j hj e s' he _
    rw [hi] at hj
    cases hj
    rw [follow_eq_ok.mpr hc] at he
    cases he

theorem readResult_eq (hi : findRoot s.rootDir name = some i)
    (hc : FatChain s.fat ((s.rootDir i).startCluster.setWidth 32) cs) :
    readResult name s = some (cs.map (clusterSector s.disk), (s.rootDir i).fileLength) := by
  rw [readResult, fat12ReadFile_eq hi hc]

theorem readResult_none (hn : findRoot s.rootDir name = none) : readResult name s = none := by
  have h : fat12ReadFile name s = .ok none s := by
    refine (ends_result _ (· = _)).mp (ends_fat12ReadFile (fun _ => rfl) ?_ ?_)
    · intro i hi
      rw [hn] at hi
      cases hi
    · intro i hi
      rw [hn] at hi
      cases hi
  rw [readResult, h]

theorem fat12Cp_ok_iff (hi : findRoot s.rootDir src = some i)
    (hc : FatChain s.fat ((s.rootDir i).startCluster.setWidth 32) cs) :
    (∃ b s', fat12Cp src dst s = .ok b s' ∧ b = true) ↔
      cs.length ≤ 30 ∧ ((newEntry s.rootDir).isSome → NameFits dst s) := by
  have hfits : NameFits dst (s.readOut cs) ↔ NameFits dst s := by
    unfold NameFits
    rw [extensionOf_readOut]
  rw [exists_ok_iff]
  simp only [fat12Cp, ends_bind, ends_of_eq_ok (fat12ReadFile_eq hi hc), ends_ite,
    ends_fat12CreateFile, ends_pure, ends_outOfBounds, List.length_map, hfits,
    Fs.readOut_toFileSystem]
  cases hn : newEntry s.rootDir with
  | none => simp
  | some j =>
    simpa using ⟨fun h => ⟨h.2, h.1 h.2⟩, fun h => ⟨fun _ => h.2, h.1⟩⟩

/-! ## Entries -/

theorem findRoot_eq_none (h : ∀ j, fat12ConstructFileName (rootDir j) ≠ name) :
    findRoot rootDir name = none := by
  unfold findRoot
  exact List.find?_eq_none.mpr fun j _ => by simpa using h j

theorem findRoot_update (h : findRoot rootDir name = some i) (hk : k ≠ i)
    (he : fat12ConstructFileName e ≠ name) : findRoot (update rootDir k e) name = some i := by
  unfold findRoot at h ⊢
  rw [List.find?_eq_some_iff_append] at h ⊢
  obtain ⟨hi, as, bs, hl, has⟩ := h
  refine ⟨by rwa [Function.update_of_ne hk.symm], as, bs, hl, fun j hj => ?_⟩
  by_cases hjk : j = k
  · subst hjk
    rw [Function.update_self]
    simpa using he
  · rw [Function.update_of_ne hjk]
    exact has j hj

/-! ## Clusters -/

theorem allocate_frame {numCluster : ℤ} {fat : FatIdx → Word} (hc : c ∉ freeClusters fat) :
    (allocate numCluster fat).1 c = fat c := by
  by_cases h : ∃ k : ℕ, 0 < k ∧ numCluster = k ∧ k ≤ (freeClusters fat).length
  · obtain ⟨k, hk, hN, hlen⟩ := h
    obtain ⟨i, cs, htake, hlaid, -⟩ := allocate_enough hk hN hlen
    refine hlaid.frame c (fun hm => hc ?_) (Option.some_ne_none c).symm
    exact List.mem_of_mem_take (htake ▸ hm)
  · push Not at h
    obtain ⟨hnil, hcons⟩ := allocate_short h
    cases hf : freeClusters fat with
    | nil => rw [hnil hf]
    | cons i cs => exact (hcons i cs hf).1.frame c (hf ▸ hc) (Option.some_ne_none c).symm

/-- The clusters that a new file gets: those that it needs, or all of them if it needs none. -/
theorem allocate_chain {fat : FatIdx → Word} {n : ℕ} (h0 : Stops (fat 0))
    (hlen : n ≤ (freeClusters fat).length) :
    ∃ ds, FatChain (allocate n fat).1 ((BitVec.ofNat 16 (allocate n fat).2).setWidth 32) ds ∧
      (0 < n → ds = (freeClusters fat).take n) := by
  rcases Nat.eq_zero_or_pos n with rfl | hn
  · obtain ⟨hnil, hcons⟩ := @allocate_short fat ((0 : ℕ) : ℤ) fun k hk e => by omega
    cases hf : freeClusters fat with
    | nil =>
      rw [hnil hf]
      exact ⟨[0], .single (fatIdx_ofNat 0) h0, fun h => (Nat.lt_irrefl 0 h).elim⟩
    | cons i cs =>
      obtain ⟨hlaid, hstart⟩ := hcons i cs hf
      rw [hstart, ofNat_fatIdx]
      exact ⟨i :: cs, hlaid.chain, fun h => (Nat.lt_irrefl 0 h).elim⟩
  · obtain ⟨i, cs, htake, hlaid, hstart⟩ := allocate_enough hn rfl hlen
    rw [hstart, ofNat_fatIdx]
    exact ⟨i :: cs, hlaid.chain, fun _ => htake.symm⟩

/-! ## The result -/

/-- A file, a new name, and what a copy takes. -/
structure Copyable (src dst : CStr) (i : RootIdx) (s : Fs) : Prop where
  wellFormed : WellFormed s.volume
  found : findRoot s.rootDir src = some i
  inUse : InUse (s.rootDir i)
  file : (s.rootDir i).directory = false
  name : EightDotThree dst
  new : ∀ j, Used (s.rootDir j) → fat12ConstructFileName (s.rootDir j) ≠ tolower dst
  clusters : clustersFor (s.rootDir i).fileLength.toNat ≤ (freeClusters s.fat).length
  entry : ∃ j, ¬ Used (s.rootDir j)

/-- `fat12_cp` returns `true`, the new file reads as the old one did, which reads as before, and the
clusters of every file and directory are as before. -/
def Copied (src dst : CStr) (s : Fs) : Prop :=
  ∃ secs secs' size s', readResult src s = some (secs, size) ∧ fat12Cp src dst s = .ok true s' ∧
    readResult (tolower dst) s' = some (secs', size) ∧
      (bytesOf secs').take size.toNat = (bytesOf secs).take size.toNat ∧
        readResult src s' = some (secs, size) ∧ ∀ l c, Owns s.volume l c →
          s'.fat c = s.fat c ∧ clusterSector s'.disk c = clusterSector s.disk c

/-- The file fits the buffer, an entry has never been used, a name without a dot stays one, and the
free clusters hold the bytes of the file already. -/
def CopyKeeps (dst : CStr) (i : RootIdx) (s : Fs) : Prop :=
  (s.rootDir i).fileLength.toNat ≤ 15360 ∧ (newEntry s.rootDir).isSome ∧ NoExtension dst s ∧
    ∀ cs, FatChain s.fat ((s.rootDir i).startCluster.setWidth 32) cs →
      (bytesOf (((freeClusters s.fat).take (clustersFor (s.rootDir i).fileLength.toNat)).map
          (clusterSector s.disk))).take (s.rootDir i).fileLength.toNat =
        (bytesOf (cs.map (clusterSector s.disk))).take (s.rootDir i).fileLength.toNat

namespace Copyable

variable (h : Copyable src dst i s)
include h

theorem live : Live s.volume (.root i) := .root h.inUse

theorem chain : ∃ cs, FatChain s.fat ((s.rootDir i).startCluster.setWidth 32) cs ∧
    (cs.length ≤ 30 ↔ (s.rootDir i).fileLength.toNat ≤ 15360) ∧
      ∀ c ∈ cs, c ∉ freeClusters s.fat := by
  by_cases hz : (s.rootDir i).fileLength = 0
  · -- an empty file is read from the cluster 0
    have hstart := h.wellFormed.empty _ h.live h.file hz
    have hstop : Stops (s.fat 0) := .inr h.wellFormed.media
    refine ⟨[0], .single ?_ hstop, ?_, fun c hc hm => ?_⟩
    · change (s.rootDir i).startCluster = 0 at hstart
      rw [hstart]
      exact fatIdx_ofNat 0
    · rw [hz]
      decide
    · rw [List.mem_singleton.mp hc] at hm
      exact absurd (mem_freeClusters.mp hm).1 (by decide)
  · have hc : HasClusters s.volume (.root i) := ⟨h.live, .inr hz⟩
    obtain ⟨cs, hcs, -, hlast⟩ := h.wellFormed.chain _ hc
    have hlen := h.wellFormed.length _ h.live h.file hz cs hcs
    refine ⟨cs, hcs, ?_, fun c hc hm => ?_⟩
    · change cs.length = clustersFor (s.rootDir i).fileLength.toNat at hlen
      rw [hlen, clustersFor]
      omega
    · exact hcs.ne_zero hlast hc (mem_freeClusters.mp hm).2

theorem toInt_fileLength : (s.rootDir i).fileLength.toInt = (s.rootDir i).fileLength.toNat := by
  have hcard := (freeClusters_nodup : (freeClusters s.fat).Nodup).length_le_card
  rw [Fintype.card_fin] at hcard
  have h3072 : FAT_NUM_ENTRY = 3072 := rfl
  have hlen := h.clusters
  rw [clustersFor] at hlen
  exact BitVec.toInt_eq_toNat_of_lt (by omega)

theorem ne_tolower (j : RootIdx) : fat12ConstructFileName (s.rootDir j) ≠ tolower dst := by
  by_cases hj : Used (s.rootDir j)
  · exact h.new j hj
  · exact h.name.ne_of_not_used hj

theorem leaves (hcp : fat12Cp src dst s = .ok true s') :
    Leaves (s.volume.create (s.rootDir i).fileLength.toNat (dst.before 0x2E) (extensionOf dst s)) s
      s' := by
  have hl := (((ends_fat12Cp src dst).of_ok hcp).2 i h.found).2
  rwa [h.toInt_fileLength] at hl

theorem fat_after (hcp : fat12Cp src dst s = .ok true s') :
    s'.fat = (allocate (clustersFor (s.rootDir i).fileLength.toNat : ℕ) s.fat).1 := by
  have hf : s'.fat = _ := congrArg Volume.fat (h.leaves hcp).volume
  rw [hf, Volume.create_fat, numClusters_eq (Int.natCast_nonneg _), Int.toNat_natCast]
  rfl

theorem disk_after (hcp : fat12Cp src dst s = .ok true s') : s'.disk = s.disk :=
  (congrArg Volume.disk (h.leaves hcp).volume).trans (Volume.create_disk ..)

theorem name_iff : shortName (dst.before 0x2E) (extensionOf dst s) = tolower dst ∧ NameFits dst s ↔
    dst.length < 20 ∧ NoExtension dst s := by
  unfold NameFits NoExtension extensionOf
  cases hx : dst.after 0x2E with
  | none =>
    rw [Option.getD_none, h.name.shortName_iff hx]
    exact ⟨fun ⟨he, hl, hm⟩ => ⟨hl, fun _ => ⟨he, hm⟩⟩,
      fun ⟨hl, he⟩ => ⟨(he rfl).1, hl, (he rfl).2⟩⟩
  | some x =>
    rw [Option.getD_some, h.name.shortName_eq hx]
    have h3 := (h.name.extension x hx).2.1
    exact ⟨fun ⟨_, hl, _⟩ => ⟨hl, fun hn => (Option.some_ne_none x hn).elim⟩,
      fun ⟨hl, _⟩ => ⟨rfl, hl, by omega⟩⟩

theorem length_lt : dst.length < 20 := by
  have h8 := h.name.le_eight
  cases hx : dst.after 0x2E with
  | none =>
    rw [CStr.before_eq_self hx] at h8
    omega
  | some x =>
    have h3 := (h.name.extension x hx).2.1
    have hl := congrArg List.length (CStr.before_append_after hx)
    rw [List.length_append, List.length_cons] at hl
    change (dst.before 0x2E).length + (x.length + 1) = dst.length at hl
    omega

theorem not_found (hcp : fat12Cp src dst s = .ok true s')
    (hno : ∀ k, newEntry s.rootDir = some k → NameFits dst s →
      shortName (dst.before 0x2E) (extensionOf dst s) ≠ tolower dst)
    (hfit : (newEntry s.rootDir).isSome → NameFits dst s) : readResult (tolower dst) s' = none := by
  have hroot : s'.rootDir = _ := congrArg Volume.rootDir (h.leaves hcp).volume
  refine readResult_none (findRoot_eq_none fun j => ?_)
  rw [hroot]
  cases hk : newEntry s.rootDir with
  | none =>
    rw [Volume.create_rootDir_none (by exact hk)]
    exact h.ne_tolower j
  | some k =>
    have hf := hfit (by rw [hk]; rfl)
    rw [Volume.create_rootDir_some (by exact hk)]
    by_cases hjk : j = k
    · rw [hjk, Function.update_self,
        construct_enterFile hf.before_lt hf.2]
      exact hno k hk hf
    · rw [Function.update_of_ne hjk]
      exact h.ne_tolower j

theorem after_copy (hcp : fat12Cp src dst s = .ok true s') (hk : newEntry s.rootDir = some k)
    (hname : shortName (dst.before 0x2E) (extensionOf dst s) = tolower dst)
    (hfit : NameFits dst s) :
    ∃ ds, readResult (tolower dst) s' =
        some (ds.map (clusterSector s.disk), (s.rootDir i).fileLength) ∧
      (0 < clustersFor (s.rootDir i).fileLength.toNat →
        ds = (freeClusters s.fat).take (clustersFor (s.rootDir i).fileLength.toNat)) ∧
      readResult src s' = readResult src s := by
  obtain ⟨cs, hcs, -, hfree⟩ := h.chain
  obtain ⟨ds, hds, htake⟩ := allocate_chain (.inr h.wellFormed.media) h.clusters
  have hfat := h.fat_after hcp
  have hdisk := h.disk_after hcp
  have hroot : s'.rootDir = update s.rootDir k _ :=
    (congrArg Volume.rootDir (h.leaves hcp).volume).trans (Volume.create_rootDir_some (by exact hk))
  rw [numClusters_eq (Int.natCast_nonneg _), Int.toNat_natCast] at hroot
  have hcon : fat12ConstructFileName (s'.rootDir k) = tolower dst := by
    rw [hroot, Function.update_self,
      construct_enterFile hfit.before_lt hfit.2, hname]
  have hki : k ≠ i := by
    rintro rfl
    exact h.inUse.1.1 (newEntry_free hk)
  have hsrc : findRoot s'.rootDir src = some i := by
    rw [hroot]
    refine findRoot_update h.found hki ?_
    rw [hroot, Function.update_self] at hcon
    rw [hcon, ← construct_of_findRoot h.found]
    exact (h.ne_tolower i).symm
  have hdst : findRoot s'.rootDir (tolower dst) = some k := by
    refine findRoot_eq_some hcon fun j hj => ?_
    rw [hroot, Function.update_of_ne hj.ne]
    exact h.ne_tolower j
  refine ⟨ds, ?_, htake, ?_⟩
  · have hlen : (s'.rootDir k).fileLength = (s.rootDir i).fileLength := by
      rw [hroot, Function.update_self, enterFile_fileLength]
      simp
    have hchain : FatChain s'.fat ((s'.rootDir k).startCluster.setWidth 32) ds := by
      rw [hroot, Function.update_self, enterFile_startCluster, hfat]
      exact hds
    rw [readResult_eq hdst hchain, hdisk, hlen]
  · have hi : s'.rootDir i = s.rootDir i := by
      rw [hroot, Function.update_of_ne hki.symm]
    have hchain : FatChain s'.fat ((s'.rootDir i).startCluster.setWidth 32) cs := by
      rw [hi, hfat]
      exact hcs.congr fun c hc => allocate_frame (hfree c hc)
    rw [readResult_eq hsrc hchain, readResult_eq h.found hcs, hdisk, hi]

end Copyable

/-- **For a file, a new name of the usual form, enough free clusters and a free entry: copying is
faithful exactly if the file fits the buffer, an entry has never been used, a name without a dot
stays one, and the clusters that the copy is going to get hold the bytes of the file already.** -/
theorem copied_iff (h : Copyable src dst i s) : Copied src dst s ↔ CopyKeeps dst i s := by
  obtain ⟨cs, hcs, h30, -⟩ := h.chain
  have hok : (∃ b s', fat12Cp src dst s = .ok b s' ∧ b = true) ↔
      cs.length ≤ 30 ∧ ((newEntry s.rootDir).isSome → NameFits dst s) := fat12Cp_ok_iff h.found hcs
  have hread := readResult_eq h.found hcs
  constructor
  · rintro ⟨secs, secs', size, s', hr, hcp, hd, hbytes, -, -⟩
    obtain ⟨hlen, hfit⟩ := hok.mp ⟨true, s', hcp, rfl⟩
    -- the copy has been found, so there is an entry with its name
    obtain ⟨k, hk, hname⟩ : ∃ k, newEntry s.rootDir = some k ∧
        shortName (dst.before 0x2E) (extensionOf dst s) = tolower dst := by
      by_contra hno
      rw [h.not_found hcp (fun k hk _ he => hno ⟨k, hk, he⟩) hfit] at hd
      cases hd
    have hf := hfit (by rw [hk]; rfl)
    obtain ⟨ds, hds, htake, -⟩ := h.after_copy hcp hk hname hf
    rw [hread] at hr
    cases hr
    rw [hds] at hd
    cases hd
    refine ⟨h30.mp hlen, by rw [hk]; rfl, (h.name_iff.mp ⟨hname, hf⟩).2, fun cs' hcs' => ?_⟩
    obtain rfl := hcs.unique hcs'
    rcases Nat.eq_zero_or_pos (s.rootDir i).fileLength.toNat with hz | hz
    · rw [hz, List.take_zero, List.take_zero]
    · rwa [htake (by rw [clustersFor]; omega)] at hbytes
  · rintro ⟨hlen, hsome, hno, hbytes⟩
    obtain ⟨hname, hfit⟩ := h.name_iff.mpr ⟨h.length_lt, hno⟩
    obtain ⟨k, hk⟩ := Option.isSome_iff_exists.mp hsome
    obtain ⟨b, s', hcp, rfl⟩ := hok.mpr ⟨h30.mpr hlen, fun _ => hfit⟩
    obtain ⟨ds, hds, htake, hsrc⟩ := h.after_copy hcp hk hname hfit
    refine ⟨_, _, _, s', hread, hcp, hds, ?_, hsrc.trans hread, fun l c hc => ⟨?_, ?_⟩⟩
    · rcases Nat.eq_zero_or_pos (s.rootDir i).fileLength.toNat with hz | hz
      · rw [hz, List.take_zero, List.take_zero]
      · rw [htake (by rw [clustersFor]; omega)]
        exact hbytes cs hcs
    · rw [h.fat_after hcp]
      exact allocate_frame fun hm => h.wellFormed.ne_zero hc (mem_freeClusters.mp hm).2
    · rw [h.disk_after hcp]

/-! ## A file of one byte -/

/-- A formatted drive whose cluster 2 holds the letter `A` throughout. -/
def lettered : Fs :=
  { formatted with disk := fun n => if n = 33 then fun _ => 0x41 else fun _ => 0 }

/-- The names of the file and of the copy. -/
def nameAB : CStr := .ofChars ['a', '.', 'b']

def nameCD : CStr := .ofChars ['c', '.', 'd']

theorem eightDotThree_nameCD : EightDotThree nameCD :=
  ⟨by decide, by decide, by decide, by decide, by decide⟩

theorem oneByte_entered : ∃ s, fsStep lettered oneByte = some s ∧
    (s.fat 2 = 0x0FFF ∧ s.fat 3 = 0 ∧ findRoot s.rootDir nameAB = some 0 ∧
      InUse (s.rootDir 0) ∧ (s.rootDir 0).directory = false ∧ (s.rootDir 0).fileLength = 1 ∧
        (s.rootDir 0).startCluster = 2 ∧ (s.rootDir 1).get 0 = 0) := by
  have hrun : (fsStep lettered oneByte).any (fun s => s.fat 2 = 0x0FFF ∧ s.fat 3 = 0 ∧
      findRoot s.rootDir nameAB = some 0 ∧ InUse (s.rootDir 0) ∧ (s.rootDir 0).directory = false ∧
        (s.rootDir 0).fileLength = 1 ∧ (s.rootDir 0).startCluster = 2 ∧
          (s.rootDir 1).get 0 = 0) := by decide +kernel
  obtain ⟨s, hs, hP⟩ := (Option.any_eq_true _ _).mp hrun
  exact ⟨s, hs, of_decide_eq_true hP⟩

theorem copyable_oneByte (hs : fsStep lettered oneByte = some s) : Copyable nameAB nameCD 0 s := by
  obtain ⟨s', hs', -, h3, hfind, huse, hdir, hlen, -, h1⟩ := oneByte_entered
  obtain rfl := Option.some.inj (hs.symm.trans hs')
  have hwf : WellFormed s.volume :=
    @wellFormed_step lettered s oneByte (wellFormed_empty _) (soundCall_oneByte rfl rfl rfl) hs
  have hroot : s.rootDir = update formatted.rootDir 0 _ :=
    (congrArg Volume.rootDir (fsStep_volume hs).1).trans
      (Volume.create_rootDir_some (by exact newEntry_formatted))
  refine ⟨hwf, hfind, huse, hdir, eightDotThree_nameCD, fun j hj => ?_, ?_, 1, fun hu => hu.1 h1⟩
  · by_cases hj0 : j = 0
    · rw [hj0, construct_of_findRoot hfind]
      decide
    · rw [hroot, Function.update_of_ne hj0] at hj
      exact (hj.1 rfl).elim
  · have hmem : (3 : FatIdx) ∈ freeClusters s.fat := mem_freeClusters.mpr ⟨by decide, h3⟩
    rw [hlen]
    exact List.length_pos_of_mem hmem

theorem copied_iff_oneByte : ∃ s, fsStep lettered oneByte = some s ∧
    (Copied nameAB nameCD s ↔ CopyKeeps nameCD 0 s) := by
  obtain ⟨s, hs, -⟩ := oneByte_entered
  exact ⟨s, hs, copied_iff (copyable_oneByte hs)⟩

theorem take_one_ofFn (x : Sector) : (List.ofFn x).take 1 = [x.get 0] := by
  have h0 : 0 < FAT_SECTOR_SIZE := by decide
  refine List.ext_getElem (by rw [List.length_take, List.length_ofFn]; rfl) fun i h₁ h₂ => ?_
  obtain rfl : i = 0 := Nat.lt_one_iff.mp h₂
  rw [List.getElem_take, List.getElem_ofFn, List.getElem_cons_zero, Bytes.get_of_lt h0]

/-- The letter is not copied. -/
theorem not_copied : ∃ s, Copyable nameAB nameCD 0 s ∧ ¬ Copied nameAB nameCD s := by
  obtain ⟨s, hs, h2, h3, -, -, -, hlen, hstart, -⟩ := oneByte_entered
  have h := copyable_oneByte hs
  refine ⟨s, h, fun hc => ?_⟩
  -- the chain of the file and the cluster that the copy gets
  have hchain : FatChain s.fat ((s.rootDir 0).startCluster.setWidth 32) [2] := by
    rw [hstart]
    exact .single (fatIdx_ofNat 2) (by rw [h2]; decide)
  have hhead : (freeClusters s.fat).head? = some 3 := by
    refine freeClusters_head (by decide) h3 fun d hd2 hd3 => ?_
    have hd3' : (d : ℕ) < 3 := hd3
    have hd : d = 2 := Fin.ext (by change (d : ℕ) = 2; omega)
    rw [hd, h2]
    decide
  obtain ⟨l, hfree⟩ := List.head?_eq_some_iff.mp hhead
  have hdisk : s.disk = lettered.disk :=
    (congrArg Volume.disk (fsStep_volume hs).1).trans (Volume.create_disk ..)
  have hbytes := ((copied_iff h).mp hc).2.2.2 [2] hchain
  have hn : clustersFor (1 : Word).toNat = 1 := by decide
  have h1 : (1 : Word).toNat = 1 := by decide
  rw [hlen, hn, hfree, h1, List.take_succ_cons, List.take_zero, List.map_singleton,
    List.map_singleton, bytesOf_singleton, bytesOf_singleton, take_one_ofFn, take_one_ofFn,
    hdisk] at hbytes
  have h41 : (clusterSector lettered.disk 2).get 0 = 0x41 := by decide +kernel
  have h0 : (clusterSector lettered.disk 3).get 0 = 0 := by decide +kernel
  rw [h41, h0] at hbytes
  exact absurd hbytes (by decide)

end AdvancedOS
