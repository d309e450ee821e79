import AdvancedOS.Fat.Chain

/-!
# What the functions of `fat12.h` do

One rule for each function, for computing how code that calls it ends.

* the primitives;
* `ends_fat12ReadClusters`: what reading a file does, in terms of its chain;
* `readOut`, `delOut`: the states that reading and deleting leave;
* `ends_fat12FindEntry`, `ends_fat12CreateFile`, …: the commands.
-/

namespace AdvancedOS

variable {s s' : Fs} {c : Word} {cs : List FatIdx} {n : ℕ} {E : Halt → Fs → Prop}

/-! ## The primitives -/

@[simp] theorem ends_changing (f : FileSystem → FileSystem) {Q : Unit → Fs → Prop} :
    Ends (changing f) s Q E ↔ Q () (s.change f) := ends_modify _

@[simp] theorem ends_fsEnable {Q : Unit → Fs → Prop} :
    Ends Fs.enable s Q E ↔ Q () (s.setFlag true) := ends_modify _

@[simp] theorem ends_fsDisable {Q : Unit → Fs → Prop} :
    Ends Fs.disable s Q E ↔ Q () (s.setFlag false) := ends_modify _

@[simp] theorem ends_outOfBounds {α : Type} {Q : α → Fs → Prop} :
    Ends outOfBounds s Q E ↔ E (.fault .bounds) s := ends_throw _

theorem ends_pointee (o : Option CStr) {Q : CStr → Fs → Prop} :
    Ends (pointee o) s Q E ↔ Q (o.getD (s.mem.cstr 0)) s := by
  cases o with
  | none => simp [pointee]
  | some s => exact ends_pure s

theorem ends_fatEntry {Q : Word → Fs → Prop} :
    Ends (fatEntry c) s Q E ↔ (∀ i, fatIdx c = some i → Q (s.fat i) s) ∧
      (fatIdx c = none → E (.fault .bounds) s) := by
  unfold fatEntry fatIdx
  split_ifs <;> simp

theorem ends_fatEntry_ofNat {j : ℕ} (h : j < FAT_NUM_ENTRY) {Q : Word → Fs → Prop} :
    Ends (fatEntry (BitVec.ofNat 32 j)) s Q E ↔ Q (s.fat ⟨j, h⟩) s := by
  simp [ends_fatEntry, show fatIdx (BitVec.ofNat 32 j) = some ⟨j, h⟩ from fatIdx_ofNat ⟨j, h⟩]

theorem ends_physEntry {i : ℕ} (h : i < FAT_PHYS_SIZE * FAT_SECTOR_SIZE) {Q : Word → Fs → Prop} :
    Ends (physEntry i) s Q E ↔ Q ((s.physFat ⟨i, h⟩).setWidth 32) s := by
  simp [physEntry, h]

theorem ends_setPhysEntry {i : ℕ} (h : i < FAT_PHYS_SIZE * FAT_SECTOR_SIZE) (x : Word)
    {Q : Unit → Fs → Prop} : Ends (setPhysEntry i x) s Q E ↔ Q () (s.change fun v =>
      { v with physFat := Function.update v.physFat ⟨i, h⟩ (x.setWidth 8) }) := by
  simp [setPhysEntry, h]

theorem ends_setFatEntry {j : ℕ} (h : j < FAT_NUM_ENTRY) (x : Word) {Q : Unit → Fs → Prop} :
    Ends (setFatEntry j x) s Q E ↔ Q () (s.change (·.setFat ⟨j, h⟩ x)) := by
  simp [setFatEntry, h]

theorem bytesOf_singleton (x : Sector) : bytesOf [x] = List.ofFn x := by
  unfold bytesOf
  rw [List.flatMap_singleton]

theorem length_bytesOf (l : List Sector) : (bytesOf l).length = l.length * FAT_SECTOR_SIZE := by
  unfold bytesOf
  induction l with
  | nil => rfl
  | cons x l ih => rw [List.flatMap_cons, List.length_append, List.length_ofFn, ih, List.length_cons,
      Nat.succ_mul, Nat.add_comm]

/-- The state after `readsect`. -/
def Fs.sectorRead (dst secno : Word) (s : Fs) : Fs :=
  (s.setFlag false).setMem (s.mem.store dst (List.ofFn (s.disk secno)))

@[simp] theorem sectorRead_toFileSystem (dst secno : Word) :
    (s.sectorRead dst secno).toFileSystem = s.toFileSystem := rfl

@[simp] theorem ends_readsect (dst secno : Word) {Q : Sector → Fs → Prop} :
    Ends (readsect dst secno) s Q E ↔ Q (s.disk secno) (s.sectorRead dst secno) := by
  simp only [readsect, ends_bind, ends_fsDisable, ends_get, ends_modify, ends_pure]
  rfl

theorem ends_readSectors (startsec : Word) (cnt : ℕ) {Q : List Sector → Fs → Prop}
    (h : ∀ s', s'.toFileSystem = s.toFileSystem →
      Q ((List.range cnt).map fun i => s.disk (startsec + BitVec.ofNat 32 i)) s') :
    Ends (readSectors startsec cnt) s Q E := by
  have key : ∀ (l : List ℕ) (s : Fs) (Q : List Sector → Fs → Prop),
      (∀ s', s'.toFileSystem = s.toFileSystem →
        Q (l.map fun i => s.disk (startsec + BitVec.ofNat 32 i)) s') →
      Ends (l.mapM fun i => readsect (TMP_USER_ADDR + BitVec.ofNat 32 (i * FAT_SECTOR_SIZE))
        (startsec + BitVec.ofNat 32 i)) s Q E := by
    intro l
    induction l with
    | nil => exact fun s Q h => (ends_pure _).mpr (h s rfl)
    | cons i l ih =>
      intro s Q h
      simp only [List.mapM_cons, ends_bind, ends_readsect, ends_pure]
      refine ih _ _ fun s' hs' => ?_
      rw [sectorRead_toFileSystem] at hs' ⊢
      exact h s' hs'
  exact key _ s Q h

theorem ends_readSectors_one (startsec : Word) {Q : List Sector → Fs → Prop} :
    Ends (readSectors startsec 1) s Q E ↔
      Q [s.disk startsec] (s.sectorRead TMP_USER_ADDR startsec) := by
  simp [readSectors, List.range_succ]

/-! ## Following the table -/

theorem ends_fat12NextSector {Q : Word × Bool → Fs → Prop} :
    Ends (fat12NextSector c) s Q E ↔
      (∀ i, fatIdx c = some i → Q (s.fat i, !decide (Stops (s.fat i))) s) ∧
      (fatIdx c = none → E (.fault .bounds) s) := by
  have hstop : ∀ x : Word, (decide (x = 0) || decide (0x0FF0 ≤ x)) = decide (Stops x) := fun x =>
    (Bool.decide_or (x = 0) (0x0FF0 ≤ x)).symm
  simp only [fat12NextSector, ends_bind, ends_fatEntry, ends_pure, hstop]

/-- The state after the clusters `cs` have been read. -/
@[simps! -fullyApplied toFileSystem mem intFlag]
def Fs.readOut (cs : List FatIdx) (s : Fs) : Fs :=
  (s.setMem (bufferedMem s.disk cs s.mem)).setFlag true

theorem readClustersLoop_ends : Ends (readClustersLoop n c) s
    (fun l s' => ∃ cs, followLoop s.fat n c = .ok cs ∧ l = cs.map (clusterSector s.disk) ∧
      s' = s.readOut cs)
    (fun e s' => followLoop s.fat n c = .error e ∧ s'.toFileSystem = s.toFileSystem) := by
  induction n generalizing c s with
  | zero => exact (ends_throw _).mpr ⟨rfl, rfl⟩
  | succ n ih =>
    simp only [readClustersLoop, ends_bind, ends_readSectors_one, ends_fsEnable,
      ends_fat12NextSector]
    -- the state in which the table is looked at
    let s₁ := (s.sectorRead TMP_USER_ADDR (c + BitVec.ofNat 32 FAT_DATA_REGION_START - 2)).setFlag
      true
    refine ⟨fun i hi => ?_, fun hn => ⟨by simp [followLoop, hn], rfl⟩⟩
    have hsec : s.disk (c + BitVec.ofNat 32 FAT_DATA_REGION_START - 2) =
        clusterSector s.disk i := by
      rw [eq_of_fatIdx hi, clusterSector]
    by_cases hs : Stops (s.fat i)
    · have hs' : Stops (s₁.fat i) := hs
      simp only [s₁] at hs'
      simp only [hs', decide_true, Bool.not_true, Bool.false_eq_true, if_false, ends_pure]
      refine ⟨[i], by simp [followLoop, hi, hs], by rw [hsec, List.map_singleton], ?_⟩
      rw [Fs.sectorRead, hsec]
      rfl
    · have hs' : ¬ Stops (s₁.fat i) := hs
      simp only [s₁] at hs'
      simp only [hs', decide_false, Bool.not_false, if_true, ends_bind, ends_pure]
      refine (ih (s := s₁) (c := s.fat i)).mono ?_ ?_
      · rintro l s' ⟨cs, hcs, rfl, rfl⟩
        have hcs' : followLoop s.fat n (s.fat i) = .ok cs := hcs
        refine ⟨i :: cs, by simp [followLoop, hi, hs, hcs', Except.map], by rw [hsec]; rfl, ?_⟩
        simp only [s₁, Fs.sectorRead, hsec]
        rfl
      · rintro e s' ⟨he, hs'⟩
        have he' : followLoop s.fat n (s.fat i) = .error e := he
        exact ⟨by simp [followLoop, hi, hs, he', Except.map], hs'⟩

theorem ends_fat12ReadClusters {Q : List Sector → Fs → Prop}
    (hQ : ∀ cs, FatChain s.fat c cs → Q (cs.map (clusterSector s.disk)) (s.readOut cs))
    (hE : ∀ e s', follow s.fat c = .error e → s'.toFileSystem = s.toFileSystem → E e s') :
    Ends (fat12ReadClusters c) s Q E := by
  rw [fat12ReadClusters]
  refine readClustersLoop_ends.mono ?_ ?_
  · rintro l s' ⟨cs, hcs, rfl, rfl⟩
    exact hQ cs (followLoop_chain hcs)
  · rintro e s' ⟨he, hs'⟩
    exact hE e s' he hs'

theorem ends_readSubdir {Q : Unit → Fs → Prop}
    (hQ : ∀ i, FatChain s.fat c [i] → Q () ((s.readOut [i]).change fun v =>
      { v with subdir := entriesOf (List.ofFn (clusterSector s.disk i)) }))
    (hE : ∀ e s', (∀ i, ¬ FatChain s.fat c [i]) → s'.toFileSystem = s.toFileSystem → E e s') :
    Ends (readSubdir c) s Q E := by
  simp only [readSubdir, ends_bind]
  refine ends_fat12ReadClusters (fun cs hcs => ?_) fun e s' he hs' => ?_
  · rcases cs with _ | ⟨i, _ | ⟨j, cs⟩⟩
    · exact absurd rfl hcs.ne_nil
    · exact (ends_changing _).mpr (hQ i hcs)
    · exact ends_outOfBounds.mpr (hE _ _ (fun k hk => by cases hcs.unique hk) rfl)
  · refine hE e s' (fun i hi => ?_) hs'
    rw [follow_eq_ok.mpr hi] at he
    cases he

/-! ## Creating a file -/

/-- The state after the clusters for `size` bytes have been taken. -/
def Fs.allocated (size : ℤ) (s : Fs) : Fs :=
  s.change fun v => { v with fat := (allocate (numClusters size) s.fat).1 }

@[simp] theorem Fs.allocated_fat (size : ℤ) (s : Fs) :
    (s.allocated size).fat = (allocate (numClusters size) s.fat).1 := rfl

theorem Fs.allocated_eq (size : ℤ) (s : Fs) : s.allocated size =
    s.change fun v => { v with fat := (allocate (numClusters size) s.fat).1 } := rfl

/-- What `fat12_create_file` takes for the extension in `name`. -/
def extensionOf (name : CStr) (s : Fs) : CStr := (name.after 0x2E).getD (s.mem.cstr 0)

/-- `name` fits the buffer, and its parts fit a directory entry. -/
def NameFits (name : CStr) (s : Fs) : Prop := name.length < 20 ∧ (extensionOf name s).length < 24

theorem NameFits.before_lt {name : CStr} (h : NameFits name s) : (name.before 0x2E).length < 20 :=
  (name.length_before_le 0x2E).trans_lt h.1

theorem NameFits.of_after {name x : CStr} (hbase : (name.before 0x2E).length ≤ 8)
    (hx : name.after 0x2E = some x) (h3 : x.length ≤ 3) (s : Fs) : NameFits name s := by
  refine ⟨?_, ?_⟩
  · rw [CStr.length_before_add_after hx]
    omega
  · rw [extensionOf, hx, Option.getD_some]
    omega

instance (name : CStr) (s : Fs) : Decidable (NameFits name s) := inferInstanceAs (Decidable (_ ∧ _))

/-- The state after the entry `i` of the root directory has been filled in as well. -/
def Fs.created (size : ℤ) (name : CStr) (i : RootIdx) (s : Fs) : Fs :=
  (s.allocated size).change (·.setRoot i
    (enterFile (s.rootDir i) (name.before 0x2E) (extensionOf name s)
      (allocate (numClusters size) s.fat).2 size))

theorem ends_fat12CreateFile (addr : List Byte) (size : ℤ) (name : CStr) {Q : Unit → Fs → Prop} :
    Ends (fat12CreateFile addr size name) s Q E ↔
      (newEntry s.rootDir = none → Q () (s.allocated size)) ∧
      ∀ i, newEntry s.rootDir = some i → (NameFits name s → Q () (s.created size name i)) ∧
        (¬ NameFits name s → E (.fault .bounds) (s.allocated size)) := by
  have hroot : (s.allocated size).rootDir = s.rootDir := rfl
  have hmem : (s.allocated size).mem = s.mem := rfl
  simp only [fat12CreateFile, ends_bind, ends_get, ends_changing, ← Fs.allocated_eq, hroot]
  cases h : newEntry s.rootDir with
  | none => simp
  | some i =>
    by_cases h1 : name.length < 20
    · simp only [h1, if_true, ends_bind, ends_pointee, strsep, ends_ite, ends_changing,
        ends_outOfBounds, Option.getD_some, NameFits, true_and, reduceCtorEq, false_implies,
        Option.some.injEq, forall_eq', hmem]
      exact Iff.rfl
    · simp [h1, NameFits]

end AdvancedOS
