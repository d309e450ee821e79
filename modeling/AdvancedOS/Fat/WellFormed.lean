import AdvancedOS.Fat.Alloc
import AdvancedOS.Fat.Names

/-!
# Well-formed volumes

* `Loc`, `Volume.entry`: the places where directory entries are, in the root directory and in the
  sectors of the drive;
* `Live`: the entries of files and directories that are reached from the root;
* `Owns`: the clusters that belong to them;
* `WellFormed`: every chain is sound, no two share a cluster, and the table marks as taken exactly
  the clusters that belong to something;
* `WellFormed.update`: **an entry of the root directory may be replaced if it owned nothing and the
  new one owns the clusters that have been taken.**
-/

namespace AdvancedOS

open Function (update)

/-- A place for a directory entry: in the root directory, or in the sector of a cluster. -/
inductive Loc where
  | root (i : RootIdx)
  | sub (c : FatIdx) (k : SubIdx)
  deriving DecidableEq

namespace Volume

/-- The entry at `l`. -/
def entry (v : Volume) : Loc → FileEntry
  | .root i => v.rootDir i
  | .sub c k => entriesOf (List.ofFn (clusterSector v.disk c)) k

/-- The clusters from the first one of the entry at `l` on. -/
def Chain (v : Volume) (l : Loc) (cs : List FatIdx) : Prop :=
  FatChain v.fat ((v.entry l).startCluster.setWidth 32) cs

/-- The last cluster of the volume: the sectors from 33 on are those of the clusters from 2 on. -/
def last (v : Volume) : ℕ := (v.bootsector.u16 19).toNat - 32

end Volume

/-- The entry is that of a file or a directory. -/
def InUse (e : FileEntry) : Prop := Used e ∧ e.label = false

instance (e : FileEntry) : Decidable (InUse e) := inferInstanceAs (Decidable (_ ∧ _))

/-- The entries of files and directories, without the links that every subdirectory has to itself
and to the one above. -/
inductive Live (v : Volume) : Loc → Prop
  | root {i : RootIdx} : InUse (v.rootDir i) → Live v (.root i)
  | sub {l : Loc} {cs : List FatIdx} {c : FatIdx} {k : SubIdx} : Live v l →
      (v.entry l).directory = true → v.Chain l cs → c ∈ cs → InUse (v.entry (.sub c k)) →
        (v.entry (.sub c k)).get 0 ≠ 0x2E → Live v (.sub c k)

/-- The entry at `l` is that of a directory or of a file that is not empty. -/
def HasClusters (v : Volume) (l : Loc) : Prop :=
  Live v l ∧ ((v.entry l).directory = true ∨ (v.entry l).fileLength ≠ 0)

/-- The cluster `c` belongs to the file or directory at `l`. -/
def Owns (v : Volume) (l : Loc) (c : FatIdx) : Prop :=
  HasClusters v l ∧ ∃ cs, v.Chain l cs ∧ c ∈ cs

/-- The number of clusters that `n` bytes take. -/
def clustersFor (n : ℕ) : ℕ := (n + 511) / 512

structure WellFormed (v : Volume) : Prop where
  media : 0x0FF0 ≤ v.fat 0
  chain : ∀ l, HasClusters v l → ∃ cs, v.Chain l cs ∧ (∀ c ∈ cs, 2 ≤ (c : ℕ) ∧ (c : ℕ) ≤ v.last) ∧
    ∀ c ∈ cs.getLast?, 0x0FF8 ≤ v.fat c
  length : ∀ l, Live v l → (v.entry l).directory = false → (v.entry l).fileLength ≠ 0 →
    ∀ cs, v.Chain l cs → cs.length = clustersFor (v.entry l).fileLength.toNat
  empty : ∀ l, Live v l → (v.entry l).directory = false → (v.entry l).fileLength = 0 →
    (v.entry l).startCluster = 0
  disjoint : ∀ l l' c, Owns v l c → Owns v l' c → l = l'
  used : ∀ c : FatIdx, 2 ≤ (c : ℕ) → v.fat c ≠ 0x0FF7 → (v.fat c ≠ 0 ↔ ∃ l, Owns v l c)

variable {v v' : Volume} {l : Loc} {c : FatIdx} {cs ds : List FatIdx} {i : RootIdx} {e : FileEntry}

namespace WellFormed

theorem ne_zero (h : WellFormed v) (hc : Owns v l c) : v.fat c ≠ 0 := by
  obtain ⟨hl, cs, hcs, hmem⟩ := hc
  obtain ⟨ds, hds, -, hlast⟩ := h.chain l hl
  obtain rfl := hcs.unique hds
  exact hds.ne_zero hlast hmem

end WellFormed

/-! ## Replacing an entry of the root directory -/

/-- The volume `v'` is `v` with the entry `i` of the root directory replaced by `e`, and the free
clusters `cs` taken for it. -/
structure Replaced (i : RootIdx) (e : FileEntry) (cs : List FatIdx) (v v' : Volume) : Prop where
  disk : v'.disk = v.disk
  bootsector : v'.bootsector = v.bootsector
  rootDir : v'.rootDir = update v.rootDir i e
  free : ∀ c ∈ cs, v.fat c = 0 ∧ 2 ≤ (c : ℕ) ∧ (c : ℕ) ≤ v.last
  frame : ∀ c, c ∉ cs → v'.fat c = v.fat c
  old : ¬ HasClusters v (.root i)
  file : InUse e → e.directory = false
  empty : InUse e → e.fileLength = 0 → e.startCluster = 0 ∧ cs = []
  chain : InUse e → e.fileLength ≠ 0 → FatChain v'.fat (e.startCluster.setWidth 32) cs ∧
    cs.length = clustersFor e.fileLength.toNat ∧ ∀ c ∈ cs.getLast?, 0x0FF8 ≤ v'.fat c
  none : ¬ InUse e → cs = []

namespace Replaced

theorem entry_of_ne (h : Replaced i e cs v v') (hl : l ≠ .root i) : v'.entry l = v.entry l := by
  cases l with
  | root j =>
    have hj : j ≠ i := fun hj => hl (congrArg Loc.root hj)
    simp only [Volume.entry, h.rootDir, Function.update_of_ne hj]
  | sub c k => simp only [Volume.entry, h.disk]

theorem entry_self (h : Replaced i e cs v v') : v'.entry (.root i) = e := by
  simp only [Volume.entry, h.rootDir, Function.update_self]

theorem last (h : Replaced i e cs v v') : v'.last = v.last := by
  simp only [Volume.last, h.bootsector]

theorem chain_iff (h : Replaced i e cs v v') (hv : WellFormed v) (hl : l ≠ .root i)
    (hc : HasClusters v l) : v'.Chain l ds ↔ v.Chain l ds := by
  obtain ⟨ds', hds', -, hlast⟩ := hv.chain l hc
  -- no cluster of the chain was free
  have hkeep : v'.Chain l ds' := by
    unfold Volume.Chain at hds' ⊢
    rw [h.entry_of_ne hl]
    refine hds'.congr fun c hc => h.frame c fun hm => ?_
    exact hds'.ne_zero hlast hc (h.free c hm).1
  constructor
  · intro hds
    obtain rfl := hds.unique hkeep
    exact hds'
  · intro hds
    obtain rfl := hds.unique hds'
    exact hkeep

theorem live_iff (h : Replaced i e cs v v') (hv : WellFormed v) :
    Live v' l ↔ l ≠ .root i ∧ Live v l ∨ l = .root i ∧ InUse e := by
  constructor
  · intro hl
    induction hl with
    | @root j hj =>
      by_cases hji : j = i
      · subst hji
        rw [h.rootDir, Function.update_self] at hj
        exact .inr ⟨rfl, hj⟩
      · rw [h.rootDir, Function.update_of_ne hji] at hj
        exact .inl ⟨fun he => hji (Loc.root.inj he), .root hj⟩
    | @sub l ds c k _ hdir hds hc huse hdot ih =>
      rw [h.entry_of_ne Loc.noConfusion] at huse hdot
      rcases ih with ⟨hne, hl⟩ | ⟨rfl, he⟩
      · rw [h.entry_of_ne hne] at hdir
        have hds := (h.chain_iff hv hne ⟨hl, .inl hdir⟩).mp hds
        exact .inl ⟨Loc.noConfusion, .sub hl hdir hds hc huse hdot⟩
      · rw [h.entry_self, h.file he] at hdir
        cases hdir
  · rintro (⟨hne, hl⟩ | ⟨rfl, he⟩)
    · induction hl with
      | @root j hj =>
        have hji : j ≠ i := fun he => hne (congrArg Loc.root he)
        refine .root ?_
        rwa [h.rootDir, Function.update_of_ne hji]
      | @sub l ds c k hl hdir hds hc huse hdot ih =>
        have hli : l ≠ .root i := by
          rintro rfl
          exact h.old ⟨hl, .inl hdir⟩
        rw [← h.entry_of_ne hne] at huse hdot
        refine .sub (ih hli) ?_ ((h.chain_iff hv hli ⟨hl, .inl hdir⟩).mpr hds) hc huse hdot
        rwa [h.entry_of_ne hli]
    · refine .root ?_
      rwa [h.rootDir, Function.update_self]

theorem hasClusters_iff (h : Replaced i e cs v v') (hv : WellFormed v) :
    HasClusters v' l ↔
      l ≠ .root i ∧ HasClusters v l ∨ l = .root i ∧ InUse e ∧ e.fileLength ≠ 0 := by
  unfold HasClusters
  rw [h.live_iff hv]
  constructor
  · rintro ⟨⟨hne, hl⟩ | ⟨rfl, he⟩, hc⟩
    · rw [h.entry_of_ne hne] at hc
      exact .inl ⟨hne, hl, hc⟩
    · rw [h.entry_self, h.file he] at hc
      exact .inr ⟨rfl, he, hc.resolve_left Bool.false_ne_true⟩
  · rintro (⟨hne, hl, hc⟩ | ⟨rfl, he, hc⟩)
    · rw [h.entry_of_ne hne]
      exact ⟨.inl ⟨hne, hl⟩, hc⟩
    · rw [h.entry_self]
      exact ⟨.inr ⟨rfl, he⟩, .inr hc⟩

theorem owns_iff (h : Replaced i e cs v v') (hv : WellFormed v) :
    Owns v' l c ↔ l ≠ .root i ∧ Owns v l c ∨ l = .root i ∧ c ∈ cs := by
  unfold Owns
  rw [h.hasClusters_iff hv]
  constructor
  · rintro ⟨⟨hne, hl⟩ | ⟨rfl, he, hz⟩, ds, hds, hc⟩
    · exact .inl ⟨hne, hl, ds, (h.chain_iff hv hne hl).mp hds, hc⟩
    · unfold Volume.Chain at hds
      rw [h.entry_self] at hds
      obtain rfl := hds.unique (h.chain he hz).1
      exact .inr ⟨rfl, hc⟩
  · rintro (⟨hne, hl, ds, hds, hc⟩ | ⟨rfl, hc⟩)
    · exact ⟨.inl ⟨hne, hl⟩, ds, (h.chain_iff hv hne hl).mpr hds, hc⟩
    · have hcs : cs ≠ [] := List.ne_nil_of_mem hc
      have he : InUse e := by
        by_contra he
        exact hcs (h.none he)
      have hz : e.fileLength ≠ 0 := fun hz => hcs (h.empty he hz).2
      refine ⟨.inr ⟨rfl, he, hz⟩, cs, ?_, hc⟩
      unfold Volume.Chain
      rw [h.entry_self]
      exact (h.chain he hz).1

end Replaced

theorem WellFormed.update (hv : WellFormed v) (h : Replaced i e cs v v') : WellFormed v' where
  media := by
    rw [h.frame 0 fun hm => absurd (h.free 0 hm).2.1 (by decide)]
    exact hv.media
  chain l hl := by
    rcases (h.hasClusters_iff hv).mp hl with ⟨hne, hl⟩ | ⟨rfl, he, hz⟩
    · obtain ⟨ds, hds, hrange, hlast⟩ := hv.chain l hl
      refine ⟨ds, (h.chain_iff hv hne hl).mpr hds, by rwa [h.last], fun c hc => ?_⟩
      rw [h.frame c fun hm => ?_]
      · exact hlast c hc
      · exact hds.ne_zero hlast (List.mem_of_mem_getLast? hc) (h.free c hm).1
    · obtain ⟨hchain, -, hlast⟩ := h.chain he hz
      refine ⟨cs, ?_, fun c hc => ?_, hlast⟩
      · unfold Volume.Chain
        rwa [h.entry_self]
      · rw [h.last]
        exact (h.free c hc).2
  length l hl hdir hz ds hds := by
    rcases (h.live_iff hv).mp hl with ⟨hne, hl⟩ | ⟨rfl, he⟩
    · rw [h.entry_of_ne hne] at hdir hz ⊢
      exact hv.length l hl hdir hz ds ((h.chain_iff hv hne ⟨hl, .inr hz⟩).mp hds)
    · unfold Volume.Chain at hds
      rw [h.entry_self] at hz hds ⊢
      obtain rfl := hds.unique (h.chain he hz).1
      exact (h.chain he hz).2.1
  empty l hl hdir hz := by
    rcases (h.live_iff hv).mp hl with ⟨hne, hl⟩ | ⟨rfl, he⟩
    · rw [h.entry_of_ne hne] at hdir hz ⊢
      exact hv.empty l hl hdir hz
    · rw [h.entry_self] at hz ⊢
      exact (h.empty he hz).1
  disjoint l l' c hc hc' := by
    -- the clusters that have been taken were free
    have hfree : ∀ {l}, Owns v l c → c ∉ cs := fun ho hm => hv.ne_zero ho (h.free c hm).1
    rcases (h.owns_iff hv).mp hc with ⟨_, ho⟩ | ⟨rfl, hm⟩ <;>
      rcases (h.owns_iff hv).mp hc' with ⟨_, ho'⟩ | ⟨rfl, hm'⟩
    · exact hv.disjoint l l' c ho ho'
    · exact (hfree ho hm').elim
    · exact (hfree ho' hm).elim
    · rfl
  used c h2 hbad := by
    by_cases hm : c ∈ cs
    · have ho : Owns v' (.root i) c := (h.owns_iff hv).mpr (.inr ⟨rfl, hm⟩)
      refine iff_of_true ?_ ⟨_, ho⟩
      obtain ⟨hl, ds, hds, hc⟩ := ho
      obtain ⟨he, hz⟩ : InUse e ∧ e.fileLength ≠ 0 := by
        rcases (h.hasClusters_iff hv).mp hl with ⟨hne, -⟩ | ⟨-, he⟩
        · exact (hne rfl).elim
        · exact he
      obtain ⟨hchain, -, hlast⟩ := h.chain he hz
      exact hchain.ne_zero hlast hm
    · rw [h.frame c hm] at hbad ⊢
      rw [hv.used c h2 hbad]
      refine exists_congr fun l => ?_
      rw [h.owns_iff hv]
      constructor
      · intro ho
        refine .inl ⟨?_, ho⟩
        rintro rfl
        exact h.old ho.1
      · rintro (⟨-, ho⟩ | ⟨-, hm'⟩)
        · exact ho
        · exact (hm hm').elim

end AdvancedOS
