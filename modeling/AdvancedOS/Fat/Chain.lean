import AdvancedOS.Fat.Code
import AdvancedOS.Lib.Linked
import Mathlib.Data.Fintype.Card

/-!
# Cluster chains

The loops of `fat12.h` that follow the table from a cluster all visit the same clusters.

* `fatNext`: where `fat12_next_sector` goes on;
* `FatChain fat c cs`: the walk from `c` visits `cs` and ends as the table says;
* `followLoop`: the clusters that a loop visits, computed with the rounds that the loops have;
* `follow_eq_ok`: **it finds exactly the chains**, because a chain visits nothing twice;
* `Endless`: a walk that does not end; `endless_iff`: **what is taken for one is one**;
* `clusterSector`, `bufferedMem`: what reading the clusters yields, and what it leaves in memory.
-/

namespace AdvancedOS

variable {fat fat' : FatIdx → Word} {c : Word} {i j : FatIdx} {cs cs' : List FatIdx} {n : ℕ}

/-- The entry of the table that `c` is the number of. -/
def fatIdx (c : Word) : Option FatIdx :=
  if h : c.toNat < FAT_NUM_ENTRY then some ⟨c.toNat, h⟩ else none

/-- `fat12_next_sector` returns `false` for this entry. -/
def Stops (x : Word) : Prop := x = 0 ∨ 0x0FF0 ≤ x

instance : DecidablePred Stops := fun _ => inferInstanceAs (Decidable (_ ∨ _))

/-- The cluster that a walk goes on with after `i`. -/
def fatNext (fat : FatIdx → Word) (i : FatIdx) : Option FatIdx :=
  if Stops (fat i) then none else fatIdx (fat i)

/-- The walk from `c` visits `cs`, and it ends because the table says so. -/
structure FatChain (fat : FatIdx → Word) (c : Word) (cs : List FatIdx) : Prop where
  linked : Linked (fatNext fat) (fatIdx c) cs
  ne_nil : cs ≠ []
  stops : ∀ i ∈ cs, fatNext fat i = none → Stops (fat i)

theorem fatIdx_eq_some : fatIdx c = some i ↔ c.toNat = i := by
  unfold fatIdx
  split_ifs with h
  · rw [Option.some.injEq, Fin.ext_iff]
  · simp only [false_iff]
    have := i.isLt
    omega

theorem eq_of_fatIdx (h : fatIdx c = some i) : c = BitVec.ofNat 32 i := by
  apply BitVec.eq_of_toNat_eq
  rw [BitVec.toNat_ofNat, ← fatIdx_eq_some.mp h, Nat.mod_eq_of_lt c.isLt]

theorem fatIdx_ofNat (i : FatIdx) : fatIdx (BitVec.ofNat 32 i) = some i := by
  rw [fatIdx_eq_some, BitVec.toNat_ofNat]
  have hi : (i : ℕ) < 3072 := i.isLt
  omega

theorem fatNext_eq_some : fatNext fat i = some j ↔ ¬ Stops (fat i) ∧ (fat i).toNat = j := by
  unfold fatNext
  split_ifs with h <;> simp [h, fatIdx_eq_some]

namespace FatChain

theorem nodup (h : FatChain fat c cs) : cs.Nodup := h.linked.nodup

theorem unique (h : FatChain fat c cs) (h' : FatChain fat c cs') : cs = cs' :=
  h.linked.unique h'.linked

theorem head (h : FatChain fat c (i :: cs)) : fatIdx c = some i := h.linked.1

theorem congr (h : FatChain fat c cs) (hf : ∀ i ∈ cs, fat' i = fat i) : FatChain fat' c cs where
  linked := h.linked.congr fun i hi => by rw [fatNext, fatNext, hf i hi]
  ne_nil := h.ne_nil
  stops i hi hn := by
    rw [fatNext, hf i hi] at hn
    rw [hf i hi]
    exact h.stops i hi hn

theorem single (hc : fatIdx c = some i) (hs : Stops (fat i)) : FatChain fat c [i] where
  linked := ⟨hc, if_pos hs⟩
  ne_nil := List.cons_ne_nil _ _
  stops j hj _ := by
    rw [List.mem_singleton.mp hj]
    exact hs

theorem cons (hc : fatIdx c = some i) (hs : ¬ Stops (fat i)) (h : FatChain fat (fat i) cs) :
    FatChain fat c (i :: cs) where
  linked := ⟨hc, by rw [fatNext, if_neg hs]; exact h.linked⟩
  ne_nil := List.cons_ne_nil _ _
  stops j hj hn := by
    rcases List.mem_cons.mp hj with rfl | hj
    · rw [fatNext, if_neg hs, h.linked.head_eq] at hn
      exact absurd (List.head?_eq_none_iff.mp hn) h.ne_nil
    · exact h.stops j hj hn

theorem cases_head (h : FatChain fat c (i :: cs)) :
    Stops (fat i) ∧ cs = [] ∨ ¬ Stops (fat i) ∧ FatChain fat (fat i) cs := by
  have hl := h.linked.2
  by_cases hs : Stops (fat i)
  · left
    rw [fatNext, if_pos hs] at hl
    exact ⟨hs, List.head?_eq_none_iff.mp hl.head_eq.symm⟩
  · right
    rw [fatNext, if_neg hs] at hl
    refine ⟨hs, hl, ?_, fun j hj => h.stops j (List.mem_cons_of_mem i hj)⟩
    rintro rfl
    exact hs (h.stops i List.mem_cons_self (by rw [fatNext, if_neg hs]; exact hl))

theorem getLast_of_stops (h : FatChain fat c cs) (hi : i ∈ cs) (hs : Stops (fat i)) :
    cs.getLast? = some i := by
  induction cs generalizing c with
  | nil => cases hi
  | cons j cs ih =>
    rcases h.cases_head with ⟨hj, rfl⟩ | ⟨hj, hc⟩
    · rw [List.mem_singleton.mp hi]
      rfl
    · have hcs : cs ≠ [] := hc.ne_nil
      rcases List.mem_cons.mp hi with rfl | hi
      · exact (hj hs).elim
      · obtain ⟨k, cs', rfl⟩ := List.exists_cons_of_ne_nil hcs
        rw [List.getLast?_cons_cons]
        exact ih hc hi

theorem stops_of_getLast (h : FatChain fat c cs) (hi : cs.getLast? = some i) : Stops (fat i) := by
  induction cs generalizing c with
  | nil => cases hi
  | cons j cs ih =>
    rcases h.cases_head with ⟨hj, rfl⟩ | ⟨hj, hc⟩
    · cases hi
      exact hj
    · obtain ⟨k, cs', rfl⟩ := List.exists_cons_of_ne_nil hc.ne_nil
      exact ih hc (by rwa [List.getLast?_cons_cons] at hi)

theorem ne_zero (h : FatChain fat c cs) (hl : ∀ i ∈ cs.getLast?, 0x0FF8 ≤ fat i) (hi : i ∈ cs) :
    fat i ≠ 0 := by
  intro h0
  have := hl i (h.getLast_of_stops hi (.inl h0))
  rw [h0] at this
  exact absurd this (by decide)

end FatChain

/-! ## The loops -/

/-- The clusters that a loop along the table visits from `c` on. -/
def followLoop (fat : FatIdx → Word) : ℕ → Word → Except Halt (List FatIdx)
  | 0, _ => .error .loops
  | n + 1, c =>
    match fatIdx c with
    | none => .error (.fault .bounds)
    | some i => if Stops (fat i) then .ok [i] else (followLoop fat n (fat i)).map (i :: ·)

/-- The clusters that are visited from `c` on. -/
def follow (fat : FatIdx → Word) (c : Word) : Except Halt (List FatIdx) := followLoop fat rounds c

theorem length_lt_rounds (h : cs.Nodup) : cs.length < rounds := by
  have := h.length_le_card
  rw [Fintype.card_fin] at this
  rw [rounds]
  exact Nat.lt_succ_of_le this

theorem followLoop_chain (h : followLoop fat n c = .ok cs) : FatChain fat c cs := by
  induction n generalizing c cs with
  | zero => cases h
  | succ n ih =>
    rw [followLoop] at h
    split at h
    · cases h
    · rename_i i hi
      split_ifs at h with hs
      · cases h
        exact .single hi hs
      · cases hf : followLoop fat n (fat i) with
        | error e =>
          rw [hf] at h
          cases h
        | ok l =>
          rw [hf] at h
          cases h
          exact .cons hi hs (ih hf)

theorem FatChain.followLoop_eq (h : FatChain fat c cs) (hn : cs.length ≤ n) :
    followLoop fat n c = .ok cs := by
  induction n generalizing c cs with
  | zero => exact absurd (List.length_eq_zero_iff.mp (Nat.le_zero.mp hn)) h.ne_nil
  | succ n ih =>
    obtain ⟨i, cs, rfl⟩ := List.exists_cons_of_ne_nil h.ne_nil
    rw [followLoop, h.head]
    rcases h.cases_head with ⟨hs, rfl⟩ | ⟨hs, hc⟩
    · simp [hs]
    · have := ih hc (Nat.le_of_succ_le_succ hn)
      simp [hs, this, Except.map]

/-- **The clusters that are visited are those of the chain.** -/
theorem follow_eq_ok : follow fat c = .ok cs ↔ FatChain fat c cs := by
  exact ⟨followLoop_chain, fun h => h.followLoop_eq (length_lt_rounds h.nodup).le⟩

/-- A walk that leaves the table or stops is found out in time. -/
theorem followLoop_ne_loops (h : Linked (fatNext fat) (fatIdx c) cs) (hn : cs.length < n) :
    followLoop fat n c ≠ .error .loops := by
  induction n generalizing c cs with
  | zero => exact absurd hn (Nat.not_lt_zero _)
  | succ n ih =>
    rw [followLoop]
    cases cs with
    | nil =>
      rw [show fatIdx c = none from h]
      simp
    | cons i cs =>
      rw [h.1]
      by_cases hs : Stops (fat i)
      · simp [hs]
      · have hl := h.2
        rw [fatNext, if_neg hs] at hl
        have := ih hl (Nat.lt_of_succ_lt_succ hn)
        cases hf : followLoop fat n (fat i) with
        | error e => simpa [hs, hf, Except.map] using this
        | ok l => simp [hs, hf, Except.map]

theorem exists_linked (h : followLoop fat n c ≠ .error .loops) :
    ∃ cs, Linked (fatNext fat) (fatIdx c) cs := by
  induction n generalizing c with
  | zero => exact absurd rfl h
  | succ n ih =>
    rw [followLoop] at h
    cases hi : fatIdx c with
    | none => exact ⟨[], rfl⟩
    | some i =>
      by_cases hs : Stops (fat i)
      · exact ⟨[i], rfl, if_pos hs⟩
      · have hn : followLoop fat n (fat i) ≠ .error .loops := by
          intro he
          simp [hi, hs, he, Except.map] at h
        obtain ⟨cs, hcs⟩ := ih hn
        exact ⟨i :: cs, rfl, by rwa [fatNext, if_neg hs]⟩

/-- A loop along the table from `c` on does not end, however many rounds it gets. -/
def Endless (fat : FatIdx → Word) (c : Word) : Prop := ∀ n, followLoop fat n c = .error .loops

/-- **A loop along the table that uses up its rounds does not end.** -/
theorem endless_iff : Endless fat c ↔ follow fat c = .error .loops := by
  refine ⟨fun h => h rounds, fun h n => ?_⟩
  by_contra hn
  obtain ⟨cs, hcs⟩ := exists_linked hn
  exact followLoop_ne_loops hcs (length_lt_rounds hcs.nodup) h

theorem Endless.not_chain (h : Endless fat c) : ¬ FatChain fat c cs := by
  intro hcs
  cases (h rounds).symm.trans (follow_eq_ok.mpr hcs)

/-- The sector of a cluster. -/
def clusterSector (disk : Word → Sector) (i : FatIdx) : Sector :=
  disk (BitVec.ofNat 32 i + BitVec.ofNat 32 FAT_DATA_REGION_START - 2)

/-- The memory after the clusters have passed through the buffer. -/
def bufferedMem (disk : Word → Sector) : List FatIdx → Mem → Mem
  | [], m => m
  | i :: cs, m =>
    bufferedMem disk cs (m.store TMP_USER_ADDR (List.ofFn (clusterSector disk i)))

end AdvancedOS
