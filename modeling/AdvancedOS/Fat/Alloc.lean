import AdvancedOS.Fat.Spec

/-!
# Taking clusters

`fat12_create_file` looks for free entries in the order of the table and links each to the one
before. It stops when it has as many as it needs, and only then marks the last one.

* `freeClusters`: the free entries, in order;
* `Laid`: a table in which some of them have been linked;
* `allocate_enough`: **if there are enough of them, the first ones become a chain**;
* `allocate_short`: **if not, or if none is needed, all of them are linked, and the last one stays
  free**.
-/

namespace AdvancedOS

open Function (update)

variable {fat t : FatIdx → Word} {prev : Option FatIdx} {i j : FatIdx} {l cs : List FatIdx}
  {last : Word} {numCluster : ℤ} {k : ℕ}

/-- The free entries, without the first two. -/
@[irreducible] def freeClusters (fat : FatIdx → Word) : List FatIdx :=
  ((List.finRange FAT_NUM_ENTRY).drop 2).filter fun i => fat i = 0

/-- The table `t` is `fat` with `prev` linked to `i`, followed by `cs`, and `last` in the end. -/
structure Laid (fat t : FatIdx → Word) (prev : Option FatIdx) (i : FatIdx) (cs : List FatIdx)
    (last : Word) : Prop where
  chain : FatChain t (BitVec.ofNat 32 i) (i :: cs)
  ends : ∀ j ∈ i :: cs, fatNext t j = none → t j = last
  linked : ∀ p, prev = some p → t p = BitVec.ofNat 32 i
  frame : ∀ j, j ∉ i :: cs → prev ≠ some j → t j = fat j

theorem linkPrev_of_ne (h : prev ≠ some j) : linkPrev prev i fat j = fat j := by
  cases prev with
  | none => rfl
  | some p => exact Function.update_of_ne (fun e => h (congrArg some e.symm)) _ _

theorem linkPrev_some : linkPrev (some j) i fat j = BitVec.ofNat 32 i := Function.update_self ..

theorem not_stops_ofNat (h : (j : ℕ) ≠ 0) : ¬ Stops (BitVec.ofNat 32 j) := by
  have hj : (j : ℕ) < 3072 := j.isLt
  have hn : (BitVec.ofNat 32 j).toNat = j := by
    rw [BitVec.toNat_ofNat]
    omega
  rintro (h0 | h1)
  · rw [h0] at hn
    exact h hn.symm
  · have := BitVec.le_def.mp h1
    rw [hn] at this
    change 4080 ≤ _ at this
    omega

namespace Laid

theorem single (hp : prev ≠ some i) (hl : Stops last) :
    Laid fat (update (linkPrev prev i fat) i last) prev i [] last where
  chain := .single (fatIdx_ofNat i) (by rwa [Function.update_self])
  ends j hj _ := by
    rw [List.mem_singleton.mp hj, Function.update_self]
  linked p hpp := by
    subst hpp
    rw [Function.update_of_ne fun e => hp (congrArg some e), linkPrev_some]
  frame j hj hpj := by
    have hji : j ≠ i := fun e => hj (List.mem_singleton.mpr e)
    rw [Function.update_of_ne hji, linkPrev_of_ne hpj]

theorem cons (h : Laid (linkPrev prev i fat) t (some i) j cs last) (hmem : ∀ b ∈ j :: cs, b ∈ l)
    (hl : (i :: l).Nodup) (hpl : ∀ p, prev = some p → p ∉ i :: l)
    (h0 : ∀ b ∈ i :: l, (b : ℕ) ≠ 0) : Laid fat t prev i (j :: cs) last := by
  have hi : i ∉ j :: cs := fun hm => (List.nodup_cons.mp hl).1 (hmem i hm)
  have hp : ∀ p, prev = some p → p ∉ i :: j :: cs := fun p e hm =>
    hpl p e (List.cons_subset_cons i hmem hm)
  have hj : (j : ℕ) ≠ 0 := h0 j (List.mem_cons_of_mem i (hmem j List.mem_cons_self))
  have hti : t i = BitVec.ofNat 32 j := h.linked i rfl
  have hns : ¬ Stops (t i) := hti ▸ not_stops_ofNat hj
  refine ⟨.cons (fatIdx_ofNat i) hns (hti ▸ h.chain), ?_, ?_, ?_⟩
  · intro a ha hn
    rcases List.mem_cons.mp ha with rfl | ha
    · rw [fatNext, if_neg hns, hti, fatIdx_ofNat] at hn
      cases hn
    · exact h.ends a ha hn
  · intro p hpp
    have hpm := hp p hpp
    have hpi : i ≠ p := fun e => hpm (e ▸ List.mem_cons_self)
    rw [h.frame p (fun hm => hpm (List.mem_cons_of_mem i hm)) fun e => hpi (Option.some.inj e), hpp,
      linkPrev_some]
  · intro a ha hpa
    have hai : i ≠ a := fun e => ha (e ▸ List.mem_cons_self)
    rw [h.frame a (fun hm => ha (List.mem_cons_of_mem i hm)) fun e => hai (Option.some.inj e),
      linkPrev_of_ne hpa]

end Laid

/-! ## The loop -/

theorem filter_linkPrev (hp : ∀ p, prev = some p → p ∉ l) :
    l.filter (fun a => linkPrev prev i fat a = 0) = l.filter fun a => fat a = 0 := by
  refine List.filter_congr fun a ha => ?_
  rw [linkPrev_of_ne fun e => hp a e ha]

theorem createLoop_enough (fat : FatIdx → Word) (prev : Option FatIdx) (cnt cstart k : ℕ)
    (hk : 0 < k) (hN : numCluster = ((cnt + k : ℕ) : ℤ))
    (hlen : k ≤ (l.filter fun a => fat a = 0).length) (hl : l.Nodup)
    (hp : ∀ p, prev = some p → p ∉ l) (h0 : ∀ a ∈ l, (a : ℕ) ≠ 0) :
    ∃ i cs, (l.filter fun a => fat a = 0).take k = i :: cs ∧
      Laid fat (createLoop numCluster l cnt prev cstart fat).1 prev i cs 0x0FFF ∧
      (createLoop numCluster l cnt prev cstart fat).2 = if cnt = 0 then (i : ℕ) else cstart := by
  induction l generalizing cnt k prev cstart fat with
  | nil =>
    simp only [List.filter_nil, List.length_nil] at hlen
    omega
  | cons a l ih =>
    have hal := (List.nodup_cons.mp hl).1
    have hpl : ∀ p, prev = some p → p ∉ l := fun p e hm => hp p e (List.mem_cons_of_mem a hm)
    have hpa : prev ≠ some a := fun e => hp a e List.mem_cons_self
    have h0l : ∀ b ∈ l, (b : ℕ) ≠ 0 := fun b hb => h0 b (List.mem_cons_of_mem a hb)
    by_cases ha : fat a = 0
    · simp only [createLoop, ha, if_true]
      rw [List.filter_cons_of_pos (by simpa using ha)] at hlen ⊢
      obtain ⟨k, rfl⟩ := Nat.exists_eq_succ_of_ne_zero hk.ne'
      rw [List.take_succ_cons]
      by_cases hk0 : k = 0
      · -- the last cluster that is needed
        subst hk0
        have : ((cnt + 1 : ℕ) : ℤ) = numCluster := hN.symm
        rw [if_pos this]
        exact ⟨a, [], by simp, .single hpa (.inr (by decide)), rfl⟩
      · have : ((cnt + 1 : ℕ) : ℤ) ≠ numCluster := by omega
        rw [if_neg this]
        have hf := @filter_linkPrev fat prev a l hpl
        obtain ⟨j, cs, htake, hlaid, hstart⟩ := ih (linkPrev prev a fat) (some a) (cnt + 1)
          (if cnt = 0 then (a : ℕ) else cstart) k (Nat.pos_of_ne_zero hk0) (by omega)
          (by rw [hf]; exact Nat.le_of_succ_le_succ hlen)
          (List.nodup_cons.mp hl).2 (by rintro p ⟨⟩; exact hal) h0l
        rw [hf] at htake
        have hmem : ∀ b ∈ j :: cs, b ∈ l := fun b hb =>
          List.mem_of_mem_filter (List.mem_of_mem_take (htake ▸ hb))
        refine ⟨a, j :: cs, by rw [htake], hlaid.cons hmem hl hp h0, ?_⟩
        rw [hstart, if_neg (Nat.succ_ne_zero cnt)]
    · simp only [createLoop, ha, if_false]
      rw [List.filter_cons_of_neg (by simpa using ha)] at hlen ⊢
      exact ih fat prev cnt cstart k hk hN hlen (List.nodup_cons.mp hl).2 hpl h0l

theorem createLoop_short (fat : FatIdx → Word) (prev : Option FatIdx) (cnt cstart : ℕ)
    (hN : ∀ k : ℕ, 0 < k → numCluster = ((cnt + k : ℕ) : ℤ) →
      (l.filter fun a => fat a = 0).length < k)
    (hl : l.Nodup) (hp : ∀ p, prev = some p → p ∉ l) (h0 : ∀ a ∈ l, (a : ℕ) ≠ 0) :
    ((l.filter fun a => fat a = 0) = [] →
      createLoop numCluster l cnt prev cstart fat = (fat, cstart)) ∧
    ∀ i cs, (l.filter fun a => fat a = 0) = i :: cs →
      Laid fat (createLoop numCluster l cnt prev cstart fat).1 prev i cs 0 ∧
      (createLoop numCluster l cnt prev cstart fat).2 = if cnt = 0 then (i : ℕ) else cstart := by
  induction l generalizing cnt prev cstart fat with
  | nil => exact ⟨fun _ => rfl, fun i cs h => (List.cons_ne_nil _ _ h.symm).elim⟩
  | cons a l ih =>
    have hal := (List.nodup_cons.mp hl).1
    have hpl : ∀ p, prev = some p → p ∉ l := fun p e hm => hp p e (List.mem_cons_of_mem a hm)
    have hpa : prev ≠ some a := fun e => hp a e List.mem_cons_self
    have h0l : ∀ b ∈ l, (b : ℕ) ≠ 0 := fun b hb => h0 b (List.mem_cons_of_mem a hb)
    by_cases ha : fat a = 0
    · simp only [createLoop, ha, if_true]
      rw [List.filter_cons_of_pos (by simpa using ha)] at hN ⊢
      have hne : ((cnt + 1 : ℕ) : ℤ) ≠ numCluster := by
        intro e
        have := hN 1 Nat.one_pos e.symm
        simp at this
      rw [if_neg hne]
      have hf := @filter_linkPrev fat prev a l hpl
      obtain ⟨hnil, hcons⟩ := ih (linkPrev prev a fat) (some a) (cnt + 1)
        (if cnt = 0 then (a : ℕ) else cstart)
        (by
          intro k hk e
          have := hN (k + 1) (Nat.succ_pos k) (by omega)
          rw [hf]
          simpa using this)
        (List.nodup_cons.mp hl).2 (by rintro p ⟨⟩; exact hal) h0l
      rw [hf] at hnil hcons
      refine ⟨fun h => (List.cons_ne_nil _ _ h).elim, fun i cs h => ?_⟩
      obtain ⟨rfl, rfl⟩ := List.cons.inj h
      cases hrest : l.filter fun a => fat a = 0 with
      | nil =>
        rw [hnil hrest]
        refine ⟨?_, rfl⟩
        have hz : linkPrev prev a fat = update (linkPrev prev a fat) a 0 := by
          refine (Function.update_eq_self_iff.mpr ?_).symm
          rw [linkPrev_of_ne hpa, ha]
        rw [hz]
        exact .single hpa (.inl rfl)
      | cons j cs =>
        obtain ⟨hlaid, hstart⟩ := hcons j cs hrest
        have hmem : ∀ b ∈ j :: cs, b ∈ l := fun b hb => List.mem_of_mem_filter (hrest ▸ hb)
        refine ⟨hlaid.cons hmem hl hp h0, ?_⟩
        rw [hstart, if_neg (Nat.succ_ne_zero cnt)]
    · simp only [createLoop, ha, if_false]
      rw [List.filter_cons_of_neg (by simpa using ha)] at hN ⊢
      exact ih fat prev cnt cstart hN (List.nodup_cons.mp hl).2 hpl h0l

/-! ## The whole table -/

theorem nodup_drop_finRange (n k : ℕ) : ((List.finRange n).drop k).Nodup :=
  (List.drop_sublist k _).nodup (List.nodup_finRange n)

theorem mem_drop_finRange {n k : ℕ} {i : Fin n} : i ∈ (List.finRange n).drop k ↔ k ≤ i := by
  constructor
  · intro h
    obtain ⟨m, hm, rfl⟩ := List.getElem_of_mem h
    rw [List.getElem_drop, List.getElem_finRange]
    exact Nat.le_add_right k m
  · intro h
    have hlen : (i : ℕ) - k < ((List.finRange n).drop k).length := by
      rw [List.length_drop, List.length_finRange]
      omega
    refine List.mem_iff_getElem.mpr ⟨i - k, hlen, ?_⟩
    rw [List.getElem_drop, List.getElem_finRange, Fin.ext_iff]
    exact Nat.add_sub_cancel' h

theorem freeClusters_nodup : (freeClusters fat).Nodup := by
  unfold freeClusters
  exact (nodup_drop_finRange _ 2).filter _

theorem mem_freeClusters : i ∈ freeClusters fat ↔ 2 ≤ (i : ℕ) ∧ fat i = 0 := by
  unfold freeClusters
  rw [List.mem_filter, mem_drop_finRange, decide_eq_true_eq]

/-- **If there are enough free clusters, the first ones become a chain.** -/
theorem allocate_enough (hk : 0 < k) (hN : numCluster = k)
    (hlen : k ≤ (freeClusters fat).length) :
    ∃ i cs, (freeClusters fat).take k = i :: cs ∧
      Laid fat (allocate numCluster fat).1 none i cs 0x0FFF ∧ (allocate numCluster fat).2 = i := by
  unfold freeClusters at hlen ⊢
  unfold allocate
  refine createLoop_enough fat none 0 0 k hk (by rw [hN, Nat.zero_add]) hlen
    (nodup_drop_finRange _ 2) (fun _ h => (Option.some_ne_none _ h.symm).elim) fun a ha => ?_
  have := mem_drop_finRange.mp ha
  omega

/-- **If there are not, or none is needed, all free clusters are linked, and none is marked.** -/
theorem allocate_short
    (hN : ∀ k : ℕ, 0 < k → numCluster = k → (freeClusters fat).length < k) :
    (freeClusters fat = [] → allocate numCluster fat = (fat, 0)) ∧
    ∀ i cs, freeClusters fat = i :: cs →
      Laid fat (allocate numCluster fat).1 none i cs 0 ∧ (allocate numCluster fat).2 = i := by
  unfold freeClusters at hN ⊢
  unfold allocate
  refine createLoop_short fat none 0 0 (fun k hk e => hN k hk (by rw [e, Nat.zero_add]))
    (nodup_drop_finRange _ 2) (fun _ h => (Option.some_ne_none _ h.symm).elim) fun a ha => ?_
  have := mem_drop_finRange.mp ha
  omega

end AdvancedOS
