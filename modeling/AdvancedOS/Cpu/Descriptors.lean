import AdvancedOS.Fat.Transfer
import Mathlib.Tactic.IntervalCases

/-!
# The descriptor tables

`gdt_set_descriptor` and `install_ir` fill in an entry of the tables that the processor reads. An entry
has 8 bytes; the tables are in the memory, at the addresses `gdt` and `idt`.

* `gdtSetDescriptor`, `installIr`: the functions;
* `segmentBase`, …, `gateSelector`: the fields, as the processor puts them together;
* `describes_setDescriptor`, `describes_setGate`: **these are the arguments, without the bits that
  there is no place for**;
* `setsEntry_gdt_iff`, `setsEntry_idt_iff`: **only the entry is written, and inside the table, except
  for the index one behind the last.**
-/

namespace AdvancedOS

def MAX_DESCRIPTORS : ℕ := 6
def MAX_INTERRUPTS : ℕ := 256

/-- An entry of one of the tables. -/
abbrev Descriptor := Bytes 8

variable {base limit irq : BitVec 64} {access grand : Byte} {typeAttr selector : BitVec 16}
  {d : Descriptor} {m : Mem} {t i x : Word} {n : ℕ}

/-! ## The functions -/

/-- The address of the entry `i` of the table at `t`. -/
def entryAddr (t i : Word) : Word := t + i * 8

/-- The entry at the address `a`. -/
def Mem.entry (m : Mem) (a : Word) : Descriptor := fun k => m (a + BitVec.ofNat 32 k)

/-- What `gdt_set_descriptor` makes of `_gdt[i]`. -/
def setDescriptor (base limit : BitVec 64) (access grand : Byte) (d : Descriptor) : Descriptor :=
  let d := d.fill 0 8 0
  let d := d.write 2 (Bytes.le16 ((base &&& 0xffff).setWidth 16)) -- `baseLo`
  let d := d.write 4 [((base >>> 16) &&& 0xff).setWidth 8] -- `baseMid`
  let d := d.write 7 [((base >>> 24) &&& 0xff).setWidth 8] -- `baseHi`
  let d := d.write 0 (Bytes.le16 ((limit &&& 0xffff).setWidth 16)) -- `limit`
  let d := d.write 5 [access] -- `flags`
  let d := d.write 6 [((limit >>> 16) &&& 0x0f).setWidth 8] -- `grand`
  d.write 6 [d.get 6 ||| (grand &&& 0xf0)]

/-- `gdt_set_descriptor`. -/
def gdtSetDescriptor (gdt i : Word) (base limit : BitVec 64) (access grand : Byte) (m : Mem) : Mem :=
  if i.toNat > MAX_DESCRIPTORS then m
  else
    let a := entryAddr gdt i
    m.store a (List.ofFn (setDescriptor base limit access grand (m.entry a)))

/-- What `install_ir` makes of `IDT[i]`. -/
def setGate (typeAttr selector : BitVec 16) (irq : BitVec 64) (d : Descriptor) : Descriptor :=
  let d := d.write 0 (Bytes.le16 ((irq &&& 0xffff).setWidth 16)) -- `offset_lowerbits`
  let d := d.write 6 (Bytes.le16 (((irq >>> 16) &&& 0xffff).setWidth 16)) -- `offset_higherbits`
  let d := d.write 4 [0] -- `zero`
  let d := d.write 5 [typeAttr.setWidth 8] -- `type_attr`
  d.write 2 (Bytes.le16 selector) -- `selector`

/-- `install_ir`. -/
def installIr (idt i : Word) (typeAttr selector : BitVec 16) (irq : BitVec 64) (m : Mem) : Mem :=
  if i.toNat > MAX_INTERRUPTS then m
  else if irq = 0 then m
  else
    let a := entryAddr idt i
    m.store a (List.ofFn (setGate typeAttr selector irq (m.entry a)))

/-! ## What the processor reads -/

def segmentBase (d : Descriptor) : Word := d.get 7 ++ d.get 4 ++ d.u16 2

def segmentLimit (d : Descriptor) : BitVec 20 := (d.get 6).extractLsb' 0 4 ++ d.u16 0

def segmentAccess (d : Descriptor) : Byte := d.get 5

/-- The granularity bits. -/
def segmentFlags (d : Descriptor) : BitVec 4 := (d.get 6).extractLsb' 4 4

def gateOffset (d : Descriptor) : Word := d.u16 6 ++ d.u16 0

def gateSelector (d : Descriptor) : BitVec 16 := d.u16 2

def gateAttr (d : Descriptor) : Byte := d.get 5

/-- The descriptor of a segment has these fields. -/
structure DescribesSegment (base limit : BitVec 64) (access grand : Byte) (d : Descriptor) :
    Prop where
  base : segmentBase d = base.setWidth 32
  limit : segmentLimit d = limit.setWidth 20
  access : segmentAccess d = access
  flags : segmentFlags d = grand.extractLsb' 4 4

/-- The descriptor of an interrupt gate has these fields. -/
structure DescribesGate (typeAttr selector : BitVec 16) (irq : BitVec 64) (d : Descriptor) :
    Prop where
  offset : gateOffset d = irq.setWidth 32
  selector : gateSelector d = selector
  attr : gateAttr d = typeAttr.setWidth 8

/-! ## The fields -/

theorem masked (s : ℕ) {k : ℕ} (hk : k ≤ 64) (x : BitVec 64) :
    ((x >>> s) &&& BitVec.ofNat 64 (2 ^ k - 1)).setWidth k = x.extractLsb' s k := by
  ext i hi
  have hmask : (BitVec.ofNat 64 (2 ^ k - 1)).getLsbD i = true := by
    rw [BitVec.getLsbD_ofNat, Nat.testBit_two_pow_sub_one]
    simp [hi, hi.trans_le hk]
  rw [BitVec.getElem_setWidth, BitVec.getLsbD_and, BitVec.getLsbD_ushiftRight, hmask, Bool.and_true,
    BitVec.getElem_extractLsb']

theorem low4_shared (x : BitVec 64) (grand : Byte) :
    (((x >>> 16) &&& 0x0f).setWidth 8 ||| (grand &&& 0xf0)).extractLsb' 0 4 =
      x.extractLsb' 16 4 := by
  ext i hi
  interval_cases i <;> simp

theorem high4_shared (x : BitVec 64) (grand : Byte) :
    (((x >>> 16) &&& 0x0f).setWidth 8 ||| (grand &&& 0xf0)).extractLsb' 4 4 =
      grand.extractLsb' 4 4 := by
  ext i hi
  interval_cases i <;> simp

theorem setDescriptor_grand : (setDescriptor base limit access grand d).get 6 =
    ((limit >>> 16) &&& 0x0f).setWidth 8 ||| (grand &&& 0xf0) := by
  simp [setDescriptor, Bytes.get_write]

theorem setDescriptor_u16_base : (setDescriptor base limit access grand d).u16 2 =
    (base &&& 0xffff).setWidth 16 := by
  unfold setDescriptor
  simp only
  rw [Bytes.u16_write_of_disjoint (.inl (by decide)), Bytes.u16_write_of_disjoint (.inl (by decide)),
    Bytes.u16_write_of_disjoint (.inl (by decide)),
    Bytes.u16_write_of_disjoint (.inr (show 0 + 2 ≤ 2 by decide)),
    Bytes.u16_write_of_disjoint (.inl (by decide)), Bytes.u16_write_of_disjoint (.inl (by decide)),
    Bytes.u16_write _ (by decide)]

theorem setDescriptor_u16_limit : (setDescriptor base limit access grand d).u16 0 =
    (limit &&& 0xffff).setWidth 16 := by
  unfold setDescriptor
  simp only
  rw [Bytes.u16_write_of_disjoint (.inl (by decide)), Bytes.u16_write_of_disjoint (.inl (by decide)),
    Bytes.u16_write_of_disjoint (.inl (by decide)), Bytes.u16_write _ (by decide)]

theorem describes_setDescriptor (base limit : BitVec 64) (access grand : Byte) (d : Descriptor) :
    DescribesSegment base limit access grand (setDescriptor base limit access grand d) where
  base := by
    have hlow : (base &&& 0xffff).setWidth 16 = base.extractLsb' 0 16 := masked 0 (by decide) base
    have hmid : ((base >>> 16) &&& 0xff).setWidth 8 = base.extractLsb' 16 8 :=
      masked 16 (by decide) base
    have hhigh : ((base >>> 24) &&& 0xff).setWidth 8 = base.extractLsb' 24 8 :=
      masked 24 (by decide) base
    have h4 : (setDescriptor base limit access grand d).get 4 = base.extractLsb' 16 8 := by
      rw [← hmid]
      simp [setDescriptor, Bytes.get_write, Bytes.le16]
    have h7 : (setDescriptor base limit access grand d).get 7 = base.extractLsb' 24 8 := by
      rw [← hhigh]
      simp [setDescriptor, Bytes.get_write, Bytes.le16]
    rw [segmentBase, h4, h7, setDescriptor_u16_base, hlow,
      BitVec.extractLsb'_append_extractLsb'_eq_extractLsb' (by decide),
      BitVec.extractLsb'_append_extractLsb'_eq_extractLsb' (by decide)]
    exact (BitVec.setWidth_eq_extractLsb' (by decide)).symm
  limit := by
    have hlow : (limit &&& 0xffff).setWidth 16 = limit.extractLsb' 0 16 := masked 0 (by decide) limit
    rw [segmentLimit, setDescriptor_grand, low4_shared, setDescriptor_u16_limit, hlow,
      BitVec.extractLsb'_append_extractLsb'_eq_extractLsb' (by decide)]
    exact (BitVec.setWidth_eq_extractLsb' (by decide)).symm
  access := by
    simp [segmentAccess, setDescriptor, Bytes.get_write]
  flags := by
    rw [segmentFlags, setDescriptor_grand, high4_shared]

theorem describes_setGate (typeAttr selector : BitVec 16) (irq : BitVec 64) (d : Descriptor) :
    DescribesGate typeAttr selector irq (setGate typeAttr selector irq d) where
  offset := by
    have hlow : (irq &&& 0xffff).setWidth 16 = irq.extractLsb' 0 16 := masked 0 (by decide) irq
    have hhigh : ((irq >>> 16) &&& 0xffff).setWidth 16 = irq.extractLsb' 16 16 :=
      masked 16 (by decide) irq
    have h0 : (setGate typeAttr selector irq d).u16 0 = irq.extractLsb' 0 16 := by
      rw [← hlow]
      unfold setGate
      simp only
      rw [Bytes.u16_write_of_disjoint (.inl (by decide)), Bytes.u16_write_of_disjoint (.inl (by decide)),
        Bytes.u16_write_of_disjoint (.inl (by decide)), Bytes.u16_write_of_disjoint (.inl (by decide)),
        Bytes.u16_write _ (by decide)]
    have h6 : (setGate typeAttr selector irq d).u16 6 = irq.extractLsb' 16 16 := by
      rw [← hhigh]
      unfold setGate
      simp only
      rw [Bytes.u16_write_of_disjoint (.inr (show 2 + 2 ≤ 6 by decide)),
        Bytes.u16_write_of_disjoint (.inr (show 5 + 1 ≤ 6 by decide)),
        Bytes.u16_write_of_disjoint (.inr (show 4 + 1 ≤ 6 by decide)),
        Bytes.u16_write _ (by decide)]
    rw [gateOffset, h0, h6, BitVec.extractLsb'_append_extractLsb'_eq_extractLsb' (by decide)]
    exact (BitVec.setWidth_eq_extractLsb' (by decide)).symm
  selector := Bytes.u16_write _ (by decide)
  attr := by
    simp [gateAttr, setGate, Bytes.get_write, Bytes.le16]

/-! ## What is written -/

/-- Whatever is in the memory, `f` changes nothing, or nothing but the entry `i` inside the table of `n`
entries at `t`, which then describes what it should. -/
def SetsEntry (t i : Word) (n : ℕ) (Describes : Descriptor → Prop) (f : Mem → Mem) : Prop :=
  ∀ m, f m = m ∨ i.toNat < n ∧ (∀ x, x ∉ span (entryAddr t i) 8 → f m x = m x) ∧
    Describes ((f m).entry (entryAddr t i))

variable {Describes : Descriptor → Prop} {g : Descriptor → Descriptor}

theorem entry_store (m : Mem) (a : Word) (d : Descriptor) : (m.store a (List.ofFn d)).entry a = d :=
  funext fun k => store_ofFn (by decide) m a k

theorem setsEntry_store (hi : i.toNat < n) (hg : ∀ d, Describes (g d)) :
    SetsEntry t i n Describes fun m =>
      m.store (entryAddr t i) (List.ofFn (g (m.entry (entryAddr t i)))) := by
  intro m
  refine .inr ⟨hi, fun x hx => store_of_notMem fun hx' => hx ?_, ?_⟩
  · rwa [List.length_ofFn] at hx'
  · rw [entry_store]
    exact hg _

theorem not_setsEntry_store (hi : n ≤ i.toNat) (b : Byte) (k : Fin 8) (hg : ∀ d, g d k ≠ b) :
    ¬ SetsEntry t i n Describes fun m =>
      m.store (entryAddr t i) (List.ofFn (g (m.entry (entryAddr t i)))) := by
  intro h
  rcases h fun _ => b with hsame | ⟨hin, -⟩
  · have hbyte := congrFun (congrArg (Mem.entry · (entryAddr t i)) hsame) k
    simp only [entry_store] at hbyte
    exact hg _ hbyte
  · exact absurd hin (not_lt.mpr hi)

theorem setsEntry_guarded_iff {skip : Prop} [Decidable skip] (hg : ∀ d, Describes (g d)) (b : Byte)
    (k : Fin 8) (hb : ∀ d, g d k ≠ b) :
    (SetsEntry t i n Describes fun m =>
      if i.toNat > n then m
      else if skip then m
      else m.store (entryAddr t i) (List.ofFn (g (m.entry (entryAddr t i))))) ↔
      i.toNat ≠ n ∨ skip := by
  by_cases hout : i.toNat > n
  · simp only [if_pos hout]
    exact iff_of_true (fun m => .inl rfl) (.inl hout.ne')
  · by_cases hs : skip
    · simp only [if_neg hout, if_pos hs]
      exact iff_of_true (fun m => .inl rfl) (.inr hs)
    · simp only [if_neg hout, if_neg hs]
      by_cases hi : i.toNat < n
      · exact iff_of_true (setsEntry_store hi hg) (.inl hi.ne)
      · apply iff_of_false (not_setsEntry_store (not_lt.mp hi) b k hb)
        intro h
        exact h.elim (fun hn => hn (le_antisymm (not_lt.mp hout) (not_lt.mp hi))) hs

theorem complement_ne : ∀ b : Byte, b ≠ ~~~b := by decide

/-- **`gdt_set_descriptor` is right exactly if the index is not the number of entries.** -/
theorem setsEntry_gdt_iff (gdt i : Word) (base limit : BitVec 64) (access grand : Byte) :
    SetsEntry gdt i MAX_DESCRIPTORS (DescribesSegment base limit access grand)
      (gdtSetDescriptor gdt i base limit access grand) ↔ i.toNat ≠ MAX_DESCRIPTORS := by
  have hne : ∀ d, setDescriptor base limit access grand d 5 ≠ ~~~access := by
    intro d hd
    have haccess := (describes_setDescriptor base limit access grand d).access
    rw [segmentAccess, Bytes.get_of_lt (by decide)] at haccess
    exact complement_ne access (haccess.symm.trans hd)
  have hguard : gdtSetDescriptor gdt i base limit access grand = fun m =>
      if i.toNat > MAX_DESCRIPTORS then m
      else if False then m
      else m.store (entryAddr gdt i)
        (List.ofFn (setDescriptor base limit access grand (m.entry (entryAddr gdt i)))) := by
    funext m
    rw [if_neg not_false]
    rfl
  rw [hguard, setsEntry_guarded_iff (describes_setDescriptor base limit access grand) _ 5 hne, or_false]

/-- **`install_ir` is right exactly if the index is not the number of entries, or there is no
handler.** -/
theorem setsEntry_idt_iff (idt i : Word) (typeAttr selector : BitVec 16) (irq : BitVec 64) :
    SetsEntry idt i MAX_INTERRUPTS (DescribesGate typeAttr selector irq)
      (installIr idt i typeAttr selector irq) ↔ i.toNat ≠ MAX_INTERRUPTS ∨ irq = 0 := by
  have hne : ∀ d, setGate typeAttr selector irq d 4 ≠ 1 := by
    intro d h1
    have hzero : (setGate typeAttr selector irq d).get 4 = 0 := by
      simp [setGate, Bytes.get_write, Bytes.le16]
    rw [Bytes.get_of_lt (by decide)] at hzero
    exact absurd (hzero.symm.trans h1) (by decide)
  exact setsEntry_guarded_iff (describes_setGate typeAttr selector irq) 1 4 hne

/-- **The tables are written in bounds and without loss exactly if the index is not the number of their
entries**, or `install_ir` is given no handler. -/
theorem setsEntries_iff (gdt idt i j : Word) (base limit : BitVec 64) (access grand : Byte)
    (typeAttr selector : BitVec 16) (irq : BitVec 64) :
    (SetsEntry gdt i MAX_DESCRIPTORS (DescribesSegment base limit access grand)
      (gdtSetDescriptor gdt i base limit access grand) ↔ i.toNat ≠ MAX_DESCRIPTORS) ∧
    (SetsEntry idt j MAX_INTERRUPTS (DescribesGate typeAttr selector irq)
      (installIr idt j typeAttr selector irq) ↔ j.toNat ≠ MAX_INTERRUPTS ∨ irq = 0) :=
  ⟨setsEntry_gdt_iff gdt i base limit access grand, setsEntry_idt_iff idt j typeAttr selector irq⟩

/-- The entries one behind the last. -/
theorem not_setsEntry_behind :
    ¬ SetsEntry 0x1000 6 MAX_DESCRIPTORS (DescribesSegment 0 0xFFFFFFFF 0x92 0xCF)
      (gdtSetDescriptor 0x1000 6 0 0xFFFFFFFF 0x92 0xCF) ∧
    ¬ SetsEntry 0x2000 256 MAX_INTERRUPTS (DescribesGate 0x8E 0x08 0x10000)
      (installIr 0x2000 256 0x8E 0x08 0x10000) := by
  rw [setsEntry_gdt_iff, setsEntry_idt_iff]
  decide

end AdvancedOS
