import AdvancedOS.Fat.Delete
import AdvancedOS.Fat.Drive
import AdvancedOS.Fat.Transfer

/-!
# Walks along the table

Nothing in the code looks whether the number in an entry of the table is that of an entry, or whether
a cluster has been visited before.

* `Leads`, `StaysInside`: one cluster leads to another; and no cluster that is led to is outside the
  table or leads back to itself;
* `exists_chain_iff`: **the clusters from there on are a chain exactly then**;
* `numClusterLoop_ends`: the other loops visit the same clusters;
* `walks_safe_iff`: **all four functions return exactly then**;
* `not_walks_safe`: a cluster that is followed by itself.
-/

namespace AdvancedOS

open Relation

variable {s s' : Fs} {fat : FatIdx → Word} {c x y : Word} {cs : List FatIdx} {n : ℕ}

/-! ## Clusters that lead to others -/

/-- The table goes on with `y` after `x`. -/
def Leads (fat : FatIdx → Word) (x y : Word) : Prop :=
  ∃ j, fatIdx x = some j ∧ ¬ Stops (fat j) ∧ fat j = y

/-- No number that the table goes on with from `c` is outside the table or comes back. -/
def StaysInside (fat : FatIdx → Word) (c : Word) : Prop :=
  ∀ x, ReflTransGen (Leads fat) c x → x.toNat < FAT_NUM_ENTRY ∧ ¬ TransGen (Leads fat) x x

theorem FatChain.of_leads (h : FatChain fat c cs) (hx : Leads fat c x) :
    ∃ cs', FatChain fat x cs' ∧ cs'.length < cs.length := by
  obtain ⟨j, hj, hs, rfl⟩ := hx
  cases cs with
  | nil => exact absurd rfl h.ne_nil
  | cons i cs =>
    obtain rfl : i = j := Option.some.inj (h.head.symm.trans hj)
    rcases h.cases_head with ⟨hstop, -⟩ | ⟨-, hc⟩
    · exact absurd hstop hs
    · exact ⟨cs, hc, cs.length.lt_succ_self⟩

theorem FatChain.of_reflTransGen (h : FatChain fat c cs) (hx : ReflTransGen (Leads fat) c x) :
    ∃ cs', FatChain fat x cs' ∧ cs'.length ≤ cs.length := by
  induction hx with
  | refl => exact ⟨cs, h, le_rfl⟩
  | tail _ hx ih =>
    obtain ⟨cs₁, h₁, hle⟩ := ih
    obtain ⟨cs₂, h₂, hlt⟩ := h₁.of_leads hx
    exact ⟨cs₂, h₂, hlt.le.trans hle⟩

theorem FatChain.staysInside (h : FatChain fat c cs) : StaysInside fat c := by
  intro x hx
  obtain ⟨cs₁, h₁, -⟩ := h.of_reflTransGen hx
  constructor
  · cases cs₁ with
    | nil => exact absurd rfl h₁.ne_nil
    | cons i cs₁ =>
      rw [fatIdx_eq_some.mp h₁.head]
      exact i.isLt
  · intro hback
    -- the chain from `x` would be shorter than itself
    obtain ⟨y, hy, hyx⟩ := TransGen.head'_iff.mp hback
    obtain ⟨cs₂, h₂, hlt⟩ := h₁.of_leads hy
    obtain ⟨cs₃, h₃, hle⟩ := h₂.of_reflTransGen hyx
    rw [h₁.unique h₃] at hlt
    omega

theorem leads_of_follows {i j : FatIdx} (h : Follows (fatNext fat) i j) :
    Leads fat (BitVec.ofNat 32 i) (BitVec.ofNat 32 j) := by
  obtain ⟨hs, hj⟩ := fatNext_eq_some.mp h
  exact ⟨i, fatIdx_ofNat i, hs, eq_of_fatIdx (fatIdx_eq_some.mpr hj)⟩

/-- **There is a chain from `c` exactly if the table stays inside.** -/
theorem exists_chain_iff : (∃ cs, FatChain fat c cs) ↔ StaysInside fat c := by
  constructor
  · rintro ⟨cs, h⟩
    exact h.staysInside
  · intro h
    obtain ⟨i, hi⟩ : ∃ i, fatIdx c = some i :=
      ⟨⟨c.toNat, (h c .refl).1⟩, fatIdx_eq_some.mpr rfl⟩
    have hc : c = BitVec.ofNat 32 i := eq_of_fatIdx hi
    have hreach : ∀ j, ReflTransGen (Follows (fatNext fat)) i j →
        ReflTransGen (Leads fat) c (BitVec.ofNat 32 j) := by
      intro j hj
      rw [hc]
      exact hj.lift (fun j : FatIdx => BitVec.ofNat 32 j) fun _ _ => leads_of_follows
    obtain ⟨cs, hcs⟩ : ∃ cs, Linked (fatNext fat) (some i) cs := by
      refine Linked.exists_of_acyclic fun j hj hback => (h _ (hreach j hj)).2 ?_
      exact hback.lift (fun j : FatIdx => BitVec.ofNat 32 j) fun _ _ => leads_of_follows
    refine ⟨cs, by rwa [hi], ?_, fun j hj hnone => ?_⟩
    · rintro rfl
      cases hcs
    · by_contra hs
      have hnext : ReflTransGen (Leads fat) c (fat j) :=
        (hreach j (hcs.reach hj)).tail ⟨j, fatIdx_ofNat j, hs, rfl⟩
      have hin : fatIdx (fat j) = some ⟨(fat j).toNat, (h _ hnext).1⟩ := fatIdx_eq_some.mpr rfl
      rw [fatNext, if_neg hs, hin] at hnone
      cases hnone

/-! ## The other loops -/

theorem numClusterLoop_ends : Ends (numClusterLoop n c) s
    (fun k s' => ∃ cs, followLoop s.fat n c = .ok cs ∧ k = cs.length ∧ s' = s)
    (fun e _ => followLoop s.fat n c = .error e) := by
  induction n generalizing c with
  | zero => exact (ends_throw _).mpr rfl
  | succ n ih =>
    simp only [numClusterLoop, ends_bind, ends_fat12NextSector]
    refine ⟨fun j hj => ?_, fun hj => by rw [followLoop, hj]⟩
    rw [followLoop, hj, ends_ite]
    by_cases hs : Stops (s.fat j)
    · refine ⟨fun hgo => by simp [hs] at hgo, fun _ => (ends_pure _).mpr ⟨[j], if_pos hs, rfl, rfl⟩⟩
    · refine ⟨fun _ => ?_, fun hstop => by simp [hs] at hstop⟩
      simp only [if_neg hs, ends_bind, ends_pure]
      refine ih.mono ?_ fun e _ he => by rw [he]; rfl
      rintro k s' ⟨cs, hcs, rfl, rfl⟩
      exact ⟨j :: cs, by rw [hcs]; rfl, rfl, rfl⟩

/-! ## The result -/

/-- From the cluster number `c` on, the loops along the table end, and they look at entries of the
table only. -/
structure WalksSafe (s : Fs) (c : Word) : Prop where
  read : ∀ buf, ∃ k s', fat12ReadClustersTo buf c s = .ok k s'
  write : ∀ buf, ∃ k s', fat12WriteClusters buf c s = .ok k s'
  number : ∃ k s', fat12GetNumCluster c s = .ok k s'
  delete : ∃ s', fat12DelFatEntry c s = .ok () s'

theorem fat12ReadClustersTo_returns (buf : Word) :
    (∃ k s', fat12ReadClustersTo buf c s = .ok k s') ↔ ∃ cs, FatChain s.fat c cs := by
  have hloop := @transferLoop_ends s c buf (fun _ => true) 0 rounds _ _ transfers_read
  rw [visitLoop_true] at hloop
  simp only [← follow_eq_ok]
  exact returns_iff (hloop.mono (fun _ _ ⟨cs, hcs, _⟩ => ⟨cs, hcs⟩) fun _ _ he => he)

theorem fat12WriteClusters_returns (buf : Word) :
    (∃ k s', fat12WriteClusters buf c s = .ok k s') ↔ ∃ cs, FatChain s.fat c cs := by
  have hloop := @transferLoop_ends s c buf (fun _ => true) 0 rounds _ _ transfers_write
  rw [visitLoop_true] at hloop
  simp only [← follow_eq_ok]
  exact returns_iff (hloop.mono (fun _ _ ⟨cs, hcs, _⟩ => ⟨cs, hcs⟩) fun _ _ he => he)

theorem fat12GetNumCluster_eq (h : FatChain s.fat c cs) (h0 : c ≠ 0) :
    fat12GetNumCluster c s = .ok cs.length s := by
  have hend : Ends (fat12GetNumCluster c) s (fun k s' => k = cs.length ∧ s' = s)
      fun _ _ => False := by
    rw [fat12GetNumCluster, if_neg h0]
    refine numClusterLoop_ends.mono ?_ fun e _ he => ?_
    · rintro k s' ⟨cs', hcs', rfl, rfl⟩
      exact ⟨congrArg _ ((follow_eq_ok.mp hcs').unique h), rfl⟩
    · have hf : follow s.fat c = .error e := he
      rw [follow_eq_ok.mpr h] at hf
      cases hf
  obtain ⟨k, s', hk, rfl, rfl⟩ := exists_ok_iff.mpr hend
  exact hk

theorem fat12GetNumCluster_returns (h : FatChain s.fat c cs) :
    ∃ k s', fat12GetNumCluster c s = .ok k s' := by
  by_cases h0 : c = 0
  · rw [fat12GetNumCluster, if_pos h0]
    exact ⟨_, _, rfl⟩
  · exact ⟨_, _, fat12GetNumCluster_eq h h0⟩

/-- **From the start cluster of a directory entry, whatever it is, and along every table: the loops
end and look at entries of the table only, exactly if no number that the table goes on with is that of
no entry, and none comes back.** -/
theorem walks_safe_iff (s : Fs) (start : BitVec 16) :
    WalksSafe s (start.setWidth 32) ↔ StaysInside s.fat (start.setWidth 32) := by
  rw [← exists_chain_iff]
  constructor
  · intro h
    exact (fat12ReadClustersTo_returns 0).mp (h.read 0)
  · intro h
    obtain ⟨cs, hcs⟩ := id h
    obtain ⟨s', hdel, -⟩ := exists_deleted hcs
    exact ⟨fun buf => (fat12ReadClustersTo_returns buf).mpr h,
      fun buf => (fat12WriteClusters_returns buf).mpr h, fat12GetNumCluster_returns hcs, s', hdel⟩

/-- A drive with a directory whose cluster is followed by itself. -/
def endless : Fs :=
  { oneDirectory with
    disk := fun n =>
      if n = 1 then Bytes.ofList [0xF0, 0xFF, 0xFF, 0x02] else oneDirectory.disk n }

namespace endless

theorem rootDir_zero : (onDrive endless.disk).rootDir 0 = entryA := by
  rw [← oneDirectory.rootDir_zero]
  refine Bytes.ext_get fun j hj => ?_
  rw [onDrive_rootDir _ _ hj, onDrive_rootDir _ _ hj]
  rfl

theorem fat_two : (onDrive endless.disk).fat 2 = 2 := by
  rw [onDrive_fat]
  decide

theorem not_staysInside : ¬ StaysInside (onDrive endless.disk).fat 2 := by
  have hback : Leads (onDrive endless.disk).fat 2 2 :=
    ⟨2, by decide, by rw [fat_two]; decide, fat_two⟩
  exact fun h => (h 2 .refl).2 (.single hback)

end endless

/-- The loops do not end there. -/
theorem not_walks_safe : ∃ s, fat12Init endless = .ok () s ∧
    ¬ WalksSafe s ((s.rootDir 0).startCluster.setWidth 32) := by
  obtain ⟨s, hs, hv, -⟩ := exists_init endless
  have hstart : (s.rootDir 0).startCluster.setWidth 32 = (2 : Word) := by
    rw [show s.rootDir = (onDrive endless.disk).rootDir from congrArg Volume.rootDir hv,
      endless.rootDir_zero]
    decide
  refine ⟨s, hs, fun h => endless.not_staysInside ?_⟩
  have hread := (fat12ReadClustersTo_returns 0).mp (h.read 0)
  rw [hstart] at hread
  rw [← show s.fat = (onDrive endless.disk).fat from congrArg Volume.fat hv]
  exact exists_chain_iff.mp hread

end AdvancedOS
