import AdvancedOS.Cpu.Descriptors

/-!
# Initializing the tables

`hal_initialize` fills in the tables that the processor reads when it changes segments, takes an
interrupt or enters the kernel. The tables are where the linked image has them.

* `gdtInit`, `idtInit`, `tssInstall`, …: the functions, and `halInitialize`;
* `writeEntry`, `entry_writes`: what is in a table after some of its entries have been written;
* `gate_halInitialize`, `segment_halInitialize`: every vector has its gate, and every descriptor its
  fields;
* `halInitialize_initialized`: **ring 3 can raise the vectors of the system calls only, a selector
  names a segment of its own privilege level over all of the memory, and the kernel's stack segment
  is in the task state.**
-/

namespace AdvancedOS

/-! ## The image -/

/-- The handlers that are installed. -/
inductive Handler where
  | default
  | divideByZeroFault | singleStepTrap | nmiTrap | breakpointTrap | overflowTrap | boundsCheckFault
  | invalidOpcodeFault | noDeviceFault | doubleFaultAbort | invalidTssFault | noSegmentFault
  | stackFault | generalProtectionFault | pageFault | fpuFault | alignmentCheckFault
  | machineCheckAbort | simdFpuFault
  | sysInterrupt | sysPthread | sysFile
  | keyboard | pit
  deriving DecidableEq

def TSS_SIZE : ℕ := 104

/-- Where the tables and the handlers are in the linked image. -/
structure Layout where
  /-- `_gdt` -/
  gdt : Word
  /-- `IDT` -/
  idt : Word
  /-- `tss` -/
  tss : Word
  /-- `_gdtr` -/
  gdtr : Word
  /-- `idt_ptr` -/
  idtPtr : Word
  handler : Handler → Word
  handler_ne : ∀ h, handler h ≠ 0
  apart : [(gdt, 8 * MAX_DESCRIPTORS), (idt, 8 * MAX_INTERRUPTS), (tss, TSS_SIZE), (gdtr, 6),
    (idtPtr, 8)].Pairwise fun x y => Disjoint (span x.1 x.2) (span y.1 y.2)

/-- An image with the tables in pages of their own. -/
instance : Inhabited Layout where
  default :=
    { gdt := 0x1000
      idt := 0x2000
      tss := 0x3000
      gdtr := 0x4000
      idtPtr := 0x5000
      handler := fun _ => 0x10000
      handler_ne := fun _ => by decide
      apart := List.Pairwise.imp
        (R := fun x y => x.1.toNat + x.2 ≤ y.1.toNat ∧ y.1.toNat + y.2 ≤ 2 ^ 32)
        (fun h => Set.disjoint_left.mpr fun _ => span_disjoint h.1 h.2) (by decide) }

namespace Layout

variable (a : Layout)

theorem gdt_apart : ∀ y ∈ [(a.idt, 8 * MAX_INTERRUPTS), (a.tss, TSS_SIZE), (a.gdtr, 6),
    (a.idtPtr, 8)], Disjoint (span a.gdt (8 * MAX_DESCRIPTORS)) (span y.1 y.2) :=
  (List.pairwise_cons.mp a.apart).1

theorem idt_apart : ∀ y ∈ [(a.tss, TSS_SIZE), (a.gdtr, 6), (a.idtPtr, 8)],
    Disjoint (span a.idt (8 * MAX_INTERRUPTS)) (span y.1 y.2) :=
  (List.pairwise_cons.mp a.apart.of_cons).1

theorem tss_apart : ∀ y ∈ [(a.gdtr, 6), (a.idtPtr, 8)],
    Disjoint (span a.tss TSS_SIZE) (span y.1 y.2) :=
  (List.pairwise_cons.mp a.apart.of_cons.of_cons).1

end Layout

/-- The memory, and the registers of the processor that point to the tables. -/
structure Tables where
  mem : Mem
  /-- The limit and the base. -/
  gdtr : BitVec 16 × Word := (0, 0)
  idtr : BitVec 16 × Word := (0, 0)
  tr : Word := 0

variable {a : Layout} {m : Mem} {x : Word}

/-! ## Segments -/

/-- `tss_init`. -/
def tssInit (a : Layout) (i : Word) (m : Mem) : Mem :=
  gdtSetDescriptor a.gdt i (a.tss.setWidth 64) ((a.tss + BitVec.ofNat 32 TSS_SIZE).setWidth 64)
    (0x01 ||| 0x08 ||| 0x60 ||| 0x80) 0 m

/-- What `tss_install` makes of `tss`. -/
def tssEntry (d : Bytes TSS_SIZE) : Bytes TSS_SIZE :=
  let d := d.fill 0 TSS_SIZE 0
  let d := d.write 8 (Bytes.le32 KERNEL_DS) -- `ss0`
  let d := d.write 4 (Bytes.le32 0) -- `esp0`
  let d := d.write 76 (Bytes.le32 (KERNEL_CS ||| 3)) -- `cs`
  let d := d.write 92 (Bytes.le32 (KERNEL_DS ||| 3)) -- `gs`
  let d := d.write 88 (Bytes.le32 (KERNEL_DS ||| 3)) -- `fs`
  let d := d.write 84 (Bytes.le32 (KERNEL_DS ||| 3)) -- `ds`
  let d := d.write 72 (Bytes.le32 (KERNEL_DS ||| 3)) -- `es`
  d.write 80 (Bytes.le32 (KERNEL_DS ||| 3)) -- `ss`

/-- The `n` bytes at the address `x`. -/
def Mem.bytes (n : ℕ) (m : Mem) (x : Word) : Bytes n := fun k => m (x + BitVec.ofNat 32 k)

/-- The `n` bytes at the address `x` become what `f` makes of them. -/
def Mem.modify (n : ℕ) (m : Mem) (x : Word) (f : Bytes n → Bytes n) : Mem :=
  m.store x (List.ofFn (f (m.bytes n x)))

/-- What the processor sets in the access byte of a segment that it loads, and of a task state. -/
def ACCESSED : Byte := 0x01
def BUSY : Byte := 0x02

/-- The descriptor with bits set in its access byte. -/
def setAccess (b : Byte) (d : Descriptor) : Descriptor := d.write 5 [d.get 5 ||| b]

/-- The processor loads the selector `s`. -/
def Tables.load (t : Tables) (b : Byte) (s : Word) : Tables :=
  { t with mem := t.mem.modify 8 (entryAddr t.gdtr.2 (s >>> 3)) (setAccess b) }

/-- `tss_install`. -/
def tssInstall (a : Layout) (i : Word) (t : Tables) : Tables :=
  let t := { t with mem := t.mem.modify TSS_SIZE a.tss tssEntry }
  -- `ltr`
  { t.load BUSY (i <<< 3) with tr := i <<< 3 }

/-- `lgdt` on the six bytes of `_gdtr`. -/
def lgdt (p : Bytes 6) : BitVec 16 × Word := (p.u16 0, p.u32 2)

/-- `load_gdt`. -/
def loadGdt (a : Layout) (t : Tables) : Tables :=
  let t := { t with gdtr := lgdt (t.mem.bytes 6 a.gdtr) }
  let t := t.load ACCESSED KERNEL_DS -- `ds`
  let t := t.load ACCESSED KERNEL_DS -- `es`
  let t := t.load ACCESSED KERNEL_DS -- `fs`
  let t := t.load ACCESSED KERNEL_DS -- `gs`
  let t := t.load ACCESSED KERNEL_DS -- `ss`
  t.load ACCESSED KERNEL_CS

/-- What `gdt_init` makes of `_gdtr`. -/
def gdtrEntry (a : Layout) (d : Bytes 6) : Bytes 6 :=
  let d := d.write 0 (Bytes.le16 (BitVec.ofNat 16 (8 * MAX_DESCRIPTORS - 1))) -- `m_limit`
  d.write 2 (Bytes.le32 a.gdt) -- `m_base`

/-- `gdt_init`. -/
def gdtInit (a : Layout) (t : Tables) : Tables :=
  let grand := 0x80 ||| 0x40 ||| 0x0f
  let m := t.mem.modify 6 a.gdtr (gdtrEntry a)
  let m := gdtSetDescriptor a.gdt 0 0 0 0 0 m
  let m := gdtSetDescriptor a.gdt 1 0 0xffffffff (0x02 ||| 0x08 ||| 0x10 ||| 0x80) grand m
  let m := gdtSetDescriptor a.gdt 2 0 0xffffffff (0x02 ||| 0x10 ||| 0x80) grand m
  let m := gdtSetDescriptor a.gdt 3 0 0xffffffff (0x02 ||| 0x08 ||| 0x10 ||| 0x80 ||| 0x60) grand m
  let m := gdtSetDescriptor a.gdt 4 0 0xffffffff (0x02 ||| 0x10 ||| 0x80 ||| 0x60) grand m
  let m := tssInit a 5 m
  tssInstall a 5 (loadGdt a { t with mem := m })

/-! ## Gates -/

def INTERRUPT_GATE : BitVec 16 := 0x8e
def IDT_DESC_RING3 : BitVec 16 := 0x60
def KERNEL_CODE_SEGMENT_OFFSET : BitVec 16 := 0x08

/-- `setvect`. -/
def setvect (a : Layout) (intno : Word) (h : Handler) (m : Mem) : Mem :=
  installIr a.idt intno INTERRUPT_GATE KERNEL_CODE_SEGMENT_OFFSET ((a.handler h).setWidth 64) m

/-- `setvect_user`. -/
def setvectUser (a : Layout) (intno : Word) (h : Handler) (m : Mem) : Mem :=
  installIr a.idt intno (INTERRUPT_GATE ||| IDT_DESC_RING3) KERNEL_CODE_SEGMENT_OFFSET
    ((a.handler h).setWidth 64) m

/-- `lidt` on the first six bytes of `idt_ptr`. -/
def lidt (p : Bytes 8) : BitVec 16 × Word := (p.u16 0, p.u32 2)

/-- What `idt_init` makes of `idt_ptr`. -/
def idtPtrEntry (a : Layout) (d : Bytes 8) : Bytes 8 :=
  let d := d.write 0 (Bytes.le32
    (BitVec.ofNat 32 (8 * MAX_INTERRUPTS) + ((a.idt &&& 0xffff) <<< 16))) -- `idt_ptr[0]`
  d.write 4 (Bytes.le32 (a.idt >>> 16)) -- `idt_ptr[1]`

/-- `idt_init`. -/
def idtInit (a : Layout) (t : Tables) : Tables :=
  let m := t.mem.store a.idt (List.replicate (8 * MAX_INTERRUPTS - 1) 0)
  let m := (List.range MAX_INTERRUPTS).foldl (fun m i => setvect a (BitVec.ofNat 32 i) .default m) m
  let m := m.modify 8 a.idtPtr (idtPtrEntry a)
  { t with mem := m, idtr := lidt (m.bytes 8 a.idtPtr) }

/-- `kb_init`. -/
def kbInit (a : Layout) (m : Mem) : Mem := setvect a 0x21 .keyboard m

/-- `pit_init`, without its flag. -/
def pitInit (a : Layout) (m : Mem) : Mem := setvect a 32 .pit m

/-- The calls of `setvect` in `hal_initialize`. -/
def exceptionVectors : List (ℕ × Handler) :=
  [(0, .divideByZeroFault), (1, .singleStepTrap), (2, .nmiTrap), (3, .breakpointTrap),
    (4, .overflowTrap), (5, .boundsCheckFault), (6, .invalidOpcodeFault), (7, .noDeviceFault),
    (8, .doubleFaultAbort), (10, .invalidTssFault), (11, .noSegmentFault), (12, .stackFault),
    (13, .generalProtectionFault), (14, .pageFault), (16, .fpuFault), (17, .alignmentCheckFault),
    (18, .machineCheckAbort), (19, .simdFpuFault)]

/-- The calls of `setvect_user` in `hal_initialize`. -/
def systemVectors : List (ℕ × Handler) :=
  [(0x80, .sysInterrupt), (0x81, .sysPthread), (0x82, .sysFile)]

/-- `hal_initialize`, as far as the tables are concerned. What it prints and the state of the timer
are elsewhere in the memory, and no interrupt arrives before it ends. -/
def halInitialize (a : Layout) (t : Tables) : Tables :=
  let t := idtInit a (gdtInit a t)
  let m := exceptionVectors.foldl (fun m v => setvect a (BitVec.ofNat 32 v.1) v.2 m) t.mem
  let m := systemVectors.foldl (fun m v => setvectUser a (BitVec.ofNat 32 v.1) v.2 m) m
  { t with mem := pitInit a (kbInit a m) }

/-! ## Entries -/

/-- The processor finds the privilege level of a descriptor in its access byte. -/
def privilege (access : Byte) : BitVec 2 := access.extractLsb' 5 2

def isPresent (access : Byte) : Bool := access.getLsbD 7

theorem entryAddr_ofNat (t : Word) (i : ℕ) :
    entryAddr t (BitVec.ofNat 32 i) = t + BitVec.ofNat 32 (8 * i) := by
  rw [entryAddr, Nat.mul_comm 8 i, BitVec.ofNat_mul]
  rfl

theorem entry_disjoint {t : Word} {i j : ℕ} (hi : i < MAX_INTERRUPTS) (hj : j < MAX_INTERRUPTS)
    (hij : i ≠ j) (hx : x ∈ span (entryAddr t (BitVec.ofNat 32 i)) 8) :
    x ∉ span (entryAddr t (BitVec.ofNat 32 j)) 8 := by
  simp only [MAX_INTERRUPTS] at hi hj
  rw [entryAddr_ofNat, mem_span_add_iff (by omega)] at hx ⊢
  omega

theorem entry_subset {t : Word} {i n : ℕ} (hi : i < n) :
    span (entryAddr t (BitVec.ofNat 32 i)) 8 ⊆ span t (8 * n) := by
  rw [entryAddr_ofNat]
  exact (span_add_subset _).trans (span_subset (by omega))

theorem add_ofNat_mem_span (t : Word) {k n : ℕ} (hk : k < n) : t + BitVec.ofNat 32 k ∈ span t n := by
  rw [mem_span, BitVec.add_comm, BitVec.add_sub_cancel, BitVec.toNat_ofNat]
  exact (Nat.mod_le _ _).trans_lt hk

theorem bytes_congr {m' : Mem} {t : Word} {n : ℕ} (h : ∀ x ∈ span t n, m' x = m x) :
    m'.bytes n t = m.bytes n t :=
  funext fun k => h _ (add_ofNat_mem_span t k.isLt)

theorem bytes_modify {n : ℕ} (hn : n ≤ 2 ^ 32) (m : Mem) (t : Word) (f : Bytes n → Bytes n) :
    (m.modify n t f).bytes n t = f (m.bytes n t) :=
  funext fun k => store_ofFn hn m t k

theorem modify_of_notMem {n : ℕ} {t : Word} {f : Bytes n → Bytes n} (hx : x ∉ span t n) :
    m.modify n t f x = m x := by
  refine store_of_notMem ?_
  rwa [List.length_ofFn]

/-! ## Sequences of writes -/

/-- The entry `w.1` of the table at `t` becomes what `w.2` makes of it. -/
def writeEntry (t : Word) (m : Mem) (w : ℕ × (Descriptor → Descriptor)) : Mem :=
  m.modify 8 (entryAddr t (BitVec.ofNat 32 w.1)) w.2

section

variable {t : Word} {w : ℕ × (Descriptor → Descriptor)} {ws : List (ℕ × (Descriptor → Descriptor))}
  {i n : ℕ} {d : Descriptor}

/-- What a sequence of writes makes of the entry `i`. -/
def rewritten (ws : List (ℕ × (Descriptor → Descriptor))) (i : ℕ) (d : Descriptor) : Descriptor :=
  (ws.filter fun w => w.1 = i).foldl (fun d w => w.2 d) d

theorem rewritten_append (ws ws' : List (ℕ × (Descriptor → Descriptor))) :
    rewritten (ws ++ ws') i d = rewritten ws' i (rewritten ws i d) := by
  rw [rewritten, List.filter_append, List.foldl_append]
  rfl

theorem entry_writes (hws : ∀ w ∈ ws, w.1 < MAX_INTERRUPTS) (hi : i < MAX_INTERRUPTS) :
    (ws.foldl (writeEntry t) m).entry (entryAddr t (BitVec.ofNat 32 i)) =
      rewritten ws i (m.entry (entryAddr t (BitVec.ofNat 32 i))) := by
  induction ws using List.reverseRecOn with
  | nil => rfl
  | append_singleton ws w ih =>
    have hw := hws w (by simp)
    rw [rewritten_append, ← ih fun v hv => hws v (by simp [hv]), List.foldl_append, List.foldl_cons,
      List.foldl_nil]
    by_cases hwi : w.1 = i
    · subst hwi
      rw [rewritten, List.filter_cons_of_pos (by simp)]
      exact bytes_modify (by decide) _ _ _
    · rw [rewritten, List.filter_cons_of_neg (by simpa using hwi)]
      exact bytes_congr fun x hx => modify_of_notMem (entry_disjoint hi hw (Ne.symm hwi) hx)

theorem rewritten_last (h : ws.reverse.find? (fun w => w.1 = i) = some w) :
    ∃ d', rewritten ws i d = w.2 d' := by
  rw [← List.getLast?_filter] at h
  obtain ⟨ys, hys⟩ := List.getLast?_eq_some_iff.mp h
  rw [rewritten, hys, List.foldl_append]
  exact ⟨_, rfl⟩

theorem writes_of_notMem (hws : ∀ w ∈ ws, w.1 < n) (hx : x ∉ span t (8 * n)) :
    ws.foldl (writeEntry t) m x = m x := by
  induction ws using List.reverseRecOn with
  | nil => rfl
  | append_singleton ws w ih =>
    rw [List.foldl_append, List.foldl_cons, List.foldl_nil]
    have hw := hws w (by simp)
    exact (modify_of_notMem fun h => hx (entry_subset hw h)).trans
      (ih fun v hv => hws v (by simp [hv]))

end

/-! ## The interrupt descriptor table -/

/-- The calls of `install_ir` in `idt_init`, with the attributes. -/
def defaultGates : List (ℕ × BitVec 16 × Handler) :=
  (List.range MAX_INTERRUPTS).map fun i => (i, INTERRUPT_GATE, .default)

/-- The calls after it. -/
def laterGates : List (ℕ × BitVec 16 × Handler) :=
  exceptionVectors.map (fun v => (v.1, INTERRUPT_GATE, v.2)) ++
    systemVectors.map (fun v => (v.1, INTERRUPT_GATE ||| IDT_DESC_RING3, v.2)) ++
    [(0x21, INTERRUPT_GATE, .keyboard), (32, INTERRUPT_GATE, .pit)]

/-- The gate that a call installs. -/
def gateOf (a : Layout) (v : ℕ × BitVec 16 × Handler) : ℕ × (Descriptor → Descriptor) :=
  (v.1, setGate v.2.1 KERNEL_CODE_SEGMENT_OFFSET ((a.handler v.2.2).setWidth 64))

/-- The handler for the vector `v`. -/
def vectorHandler (v : ℕ) : Handler :=
  match v with
  | 0 => .divideByZeroFault
  | 1 => .singleStepTrap
  | 2 => .nmiTrap
  | 3 => .breakpointTrap
  | 4 => .overflowTrap
  | 5 => .boundsCheckFault
  | 6 => .invalidOpcodeFault
  | 7 => .noDeviceFault
  | 8 => .doubleFaultAbort
  | 10 => .invalidTssFault
  | 11 => .noSegmentFault
  | 12 => .stackFault
  | 13 => .generalProtectionFault
  | 14 => .pageFault
  | 16 => .fpuFault
  | 17 => .alignmentCheckFault
  | 18 => .machineCheckAbort
  | 19 => .simdFpuFault
  | 0x20 => .pit
  | 0x21 => .keyboard
  | 0x80 => .sysInterrupt
  | 0x81 => .sysPthread
  | 0x82 => .sysFile
  | _ => .default

/-- A vector that ring 3 may raise with `int`. -/
def IsSystemCall (v : ℕ) : Prop := v = 0x80 ∨ v = 0x81 ∨ v = 0x82

instance : DecidablePred IsSystemCall := fun _ => inferInstanceAs (Decidable (_ ∨ _ ∨ _))

def vectorAttr (v : ℕ) : BitVec 16 := if IsSystemCall v then 0xee else 0x8e

theorem gates_lt : ∀ v ∈ defaultGates ++ laterGates, v.1 < MAX_INTERRUPTS := by
  decide +kernel

theorem find?_gates : ∀ v < MAX_INTERRUPTS,
    (defaultGates ++ laterGates).reverse.find? (fun w => w.1 = v) =
      some (v, vectorAttr v, vectorHandler v) := by
  decide +kernel

theorem installIr_eq {v : ℕ × BitVec 16 × Handler}
    (hv : v.1 < MAX_INTERRUPTS) (m : Mem) :
    installIr a.idt (BitVec.ofNat 32 v.1) v.2.1 KERNEL_CODE_SEGMENT_OFFSET
      ((a.handler v.2.2).setWidth 64) m = writeEntry a.idt m (gateOf a v) := by
  have hlt : ¬ (BitVec.ofNat 32 v.1).toNat > MAX_INTERRUPTS := by
    simp only [MAX_INTERRUPTS] at hv ⊢
    rw [BitVec.toNat_ofNat, Nat.mod_eq_of_lt (by omega)]
    omega
  have hne : (a.handler v.2.2).setWidth 64 ≠ 0 := by
    intro h0
    have := congrArg (BitVec.setWidth 32) h0
    rw [BitVec.setWidth_setWidth_of_le _ (by decide), BitVec.setWidth_eq] at this
    exact a.handler_ne v.2.2 this
  rw [installIr, if_neg hlt, if_neg hne]
  rfl

theorem foldl_gates {vs : List (ℕ × BitVec 16 × Handler)} (hvs : ∀ v ∈ vs, v.1 < MAX_INTERRUPTS)
    (m : Mem) : vs.foldl (fun m v => installIr a.idt (BitVec.ofNat 32 v.1) v.2.1
      KERNEL_CODE_SEGMENT_OFFSET ((a.handler v.2.2).setWidth 64) m) m =
      (vs.map (gateOf a)).foldl (writeEntry a.idt) m := by
  induction vs generalizing m with
  | nil => rfl
  | cons v vs ih =>
    rw [List.map_cons, List.foldl_cons, List.foldl_cons, installIr_eq (hvs v (by simp)),
      ih fun w hw => hvs w (by simp [hw])]

/-- `idt_init` and what follows it write the gates one after the other, with `idt_ptr` in
between. -/
theorem halInitialize_mem (t : Tables) :
    (halInitialize a t).mem = (laterGates.map (gateOf a)).foldl (writeEntry a.idt)
      (((defaultGates.map (gateOf a)).foldl (writeEntry a.idt)
        ((gdtInit a t).mem.store a.idt (List.replicate (8 * MAX_INTERRUPTS - 1) 0))).modify 8
          a.idtPtr (idtPtrEntry a)) := by
  have hlt := List.forall_mem_append.mp gates_lt
  have hkb : ∀ m, kbInit a m = setvect a (BitVec.ofNat 32 0x21) .keyboard m := fun _ => rfl
  have hpit : ∀ m, pitInit a m = setvect a (BitVec.ofNat 32 32) .pit m := fun _ => rfl
  rw [← foldl_gates hlt.1, ← foldl_gates hlt.2]
  simp only [defaultGates, laterGates, List.foldl_append, List.foldl_map, List.foldl_cons,
    List.foldl_nil, halInitialize, idtInit, hkb, hpit, setvect, setvectUser]

theorem gateOf_lt {vs : List (ℕ × BitVec 16 × Handler)} (hvs : ∀ v ∈ vs, v.1 < MAX_INTERRUPTS) :
    ∀ w ∈ vs.map (gateOf a), w.1 < MAX_INTERRUPTS := by
  intro w hw
  obtain ⟨u, hu, rfl⟩ := List.mem_map.mp hw
  exact hvs u hu

theorem gate_halInitialize (t : Tables) {v : ℕ}
    (hv : v < MAX_INTERRUPTS) :
    DescribesGate (vectorAttr v) KERNEL_CODE_SEGMENT_OFFSET
      ((a.handler (vectorHandler v)).setWidth 64)
      ((halInitialize a t).mem.entry (entryAddr a.idt (BitVec.ofNat 32 v))) := by
  have hlt := List.forall_mem_append.mp gates_lt
  have hlast : ((defaultGates ++ laterGates).map (gateOf a)).reverse.find? (fun w => w.1 = v) =
      some (gateOf a (v, vectorAttr v, vectorHandler v)) := by
    rw [← List.map_reverse, List.find?_map]
    exact congrArg (Option.map (gateOf a)) (find?_gates v hv)
  -- `idt_ptr` is not in the table
  have hptr : ∀ m : Mem, (m.modify 8 a.idtPtr (idtPtrEntry a)).entry
      (entryAddr a.idt (BitVec.ofNat 32 v)) = m.entry (entryAddr a.idt (BitVec.ofNat 32 v)) :=
    fun m => bytes_congr fun x hx => modify_of_notMem
      (Set.disjoint_left.mp (a.idt_apart (a.idtPtr, 8) (by simp)) (entry_subset hv hx))
  rw [halInitialize_mem, entry_writes (gateOf_lt hlt.2) hv, hptr, entry_writes (gateOf_lt hlt.1) hv,
    ← rewritten_append, ← List.map_append]
  obtain ⟨d, hd⟩ := rewritten_last hlast
  rw [hd]
  exact describes_setGate ..

theorem halInitialize_of_notMem (t : Tables) (hx : x ∉ span a.idt (8 * MAX_INTERRUPTS))
    (hp : x ∉ span a.idtPtr 8) : (halInitialize a t).mem x = (gdtInit a t).mem x := by
  have hlt := List.forall_mem_append.mp gates_lt
  rw [halInitialize_mem, writes_of_notMem (gateOf_lt hlt.2) hx, modify_of_notMem hp,
    writes_of_notMem (gateOf_lt hlt.1) hx]
  refine store_of_notMem fun h => hx (span_subset ?_ h)
  rw [List.length_replicate]
  omega

theorem halves_le32 {n o : ℕ} (v : Word) (b : Bytes n) (h : o + 3 < n) :
    (b.write o (Bytes.le32 v)).u16 o = v.extractLsb' 0 16 ∧
      (b.write o (Bytes.le32 v)).u16 (o + 2) = v.extractLsb' 16 16 := by
  have hv : (b.write o (Bytes.le32 v)).u16 (o + 2) ++ (b.write o (Bytes.le32 v)).u16 o = v :=
    Bytes.u32_write v h
  refine ⟨?_, ?_⟩
  · exact (BitVec.extractLsb'_append_eq_right).symm.trans (congrArg (BitVec.extractLsb' 0 16) hv)
  · exact (BitVec.extractLsb'_append_eq_left).symm.trans (congrArg (BitVec.extractLsb' 16 16) hv)

theorem lidt_idtPtrEntry (d : Bytes 8) :
    lidt (idtPtrEntry a d) = (BitVec.ofNat 16 (8 * MAX_INTERRUPTS), a.idt) := by
  have hmask : (a.idt &&& 0xffff).toNat = a.idt.toNat % 2 ^ 16 := by
    rw [BitVec.toNat_and]
    exact Nat.and_two_pow_sub_one_eq_mod _ 16
  have hlow : (BitVec.ofNat 32 (8 * MAX_INTERRUPTS) + ((a.idt &&& 0xffff) <<< 16)).toNat =
      2048 + a.idt.toNat % 2 ^ 16 * 2 ^ 16 := by
    rw [BitVec.toNat_add, BitVec.toNat_shiftLeft, hmask, Nat.shiftLeft_eq, BitVec.toNat_ofNat]
    simp only [MAX_INTERRUPTS]
    omega
  obtain ⟨h0, h2⟩ := halves_le32 (o := 0)
    (BitVec.ofNat 32 (8 * MAX_INTERRUPTS) + ((a.idt &&& 0xffff) <<< 16)) d (by decide)
  have h4 := (halves_le32 (a.idt >>> 16) (d.write 0 (Bytes.le32
    (BitVec.ofNat 32 (8 * MAX_INTERRUPTS) + ((a.idt &&& 0xffff) <<< 16)))) (o := 4) (by decide)).1
  refine Prod.ext (BitVec.eq_of_toNat_eq ?_) (BitVec.eq_of_toNat_eq ?_)
  · change ((idtPtrEntry a d).u16 0).toNat = _
    rw [idtPtrEntry, Bytes.u16_write_of_disjoint (.inl (by decide)), h0, BitVec.extractLsb'_toNat,
      hlow]
    simp [MAX_INTERRUPTS]
  · have hx := a.idt.isLt
    change ((idtPtrEntry a d).u16 4 ++ (idtPtrEntry a d).u16 2).toNat = a.idt.toNat
    rw [idtPtrEntry, h4, Bytes.u16_write_of_disjoint (.inl (by decide)), h2, BitVec.toNat_append, BitVec.extractLsb'_toNat, BitVec.extractLsb'_toNat, hlow,
      BitVec.toNat_ushiftRight, Nat.shiftRight_eq_div_pow, Nat.shiftRight_eq_div_pow,
      ← Nat.shiftLeft_add_eq_or_of_lt (Nat.mod_lt _ (by decide)), Nat.shiftLeft_eq]
    omega

theorem idtr_halInitialize (t : Tables) :
    (halInitialize a t).idtr = (BitVec.ofNat 16 (8 * MAX_INTERRUPTS), a.idt) := by
  show lidt (Mem.bytes 8 (Mem.modify 8 _ _ _) _) = _
  rw [bytes_modify (by decide), lidt_idtPtrEntry]

/-! ## The global descriptor table and the task state -/

/-- The fields of the descriptors that `gdt_init` fills in. -/
def segments (a : Layout) : List (ℕ × BitVec 64 × BitVec 64 × Byte × Byte) :=
  [(0, 0, 0, 0, 0), (1, 0, 0xffffffff, 0x9a, 0xcf), (2, 0, 0xffffffff, 0x92, 0xcf),
    (3, 0, 0xffffffff, 0xfa, 0xcf), (4, 0, 0xffffffff, 0xf2, 0xcf),
    (5, a.tss.setWidth 64, (a.tss + BitVec.ofNat 32 TSS_SIZE).setWidth 64, 0xe9, 0)]

/-- The descriptor that a call of `gdt_set_descriptor` writes. -/
def segmentOf (v : ℕ × BitVec 64 × BitVec 64 × Byte × Byte) : ℕ × (Descriptor → Descriptor) :=
  (v.1, setDescriptor v.2.1 v.2.2.1 v.2.2.2.1 v.2.2.2.2)

/-- What the processor writes in `load_gdt`. -/
def segmentLoads : List (ℕ × (Descriptor → Descriptor)) :=
  [2, 2, 2, 2, 2, 1].map fun i => (i, setAccess ACCESSED)

/-- What it sets in the access byte of the descriptor `i`. -/
def marks (i : ℕ) : Byte :=
  match i with
  | 1 | 2 => ACCESSED
  | 5 => BUSY
  | _ => 0

theorem segmentOf_lt : ∀ w ∈ (segments a).map segmentOf, w.1 < MAX_DESCRIPTORS := by
  simp [segments, segmentOf, MAX_DESCRIPTORS]

theorem segmentLoads_lt : ∀ w ∈ segmentLoads, w.1 < MAX_DESCRIPTORS := by
  simp [segmentLoads, MAX_DESCRIPTORS]

theorem lgdt_gdtrEntry (d : Bytes 6) :
    lgdt (gdtrEntry a d) = (BitVec.ofNat 16 (8 * MAX_DESCRIPTORS - 1), a.gdt) := by
  refine Prod.ext ?_ (Bytes.u32_write _ (by decide))
  rw [lgdt, gdtrEntry, Bytes.u16_write_of_disjoint (.inl (by decide)), Bytes.u16_write _ (by decide)]

theorem lgdt_segments (m : Mem) : lgdt ((((segments a).map segmentOf).foldl (writeEntry a.gdt)
    (m.modify 6 a.gdtr (gdtrEntry a))).bytes 6 a.gdtr) =
      (BitVec.ofNat 16 (8 * MAX_DESCRIPTORS - 1), a.gdt) := by
  have happart := a.gdt_apart (a.gdtr, 6) (by simp)
  rw [bytes_congr fun x hx => writes_of_notMem segmentOf_lt (Set.disjoint_right.mp happart hx),
    bytes_modify (n := 6) (by decide), lgdt_gdtrEntry]

theorem gdtSetDescriptor_eq {i : Word} {k : ℕ} (hi : i = BitVec.ofNat 32 k) (hk : k < MAX_DESCRIPTORS)
    (base limit : BitVec 64) (access grand : Byte) (m : Mem) :
    gdtSetDescriptor a.gdt i base limit access grand m =
      writeEntry a.gdt m (k, setDescriptor base limit access grand) := by
  have hlt : ¬ i.toNat > MAX_DESCRIPTORS := by
    simp only [MAX_DESCRIPTORS] at hk ⊢
    rw [hi, BitVec.toNat_ofNat, Nat.mod_eq_of_lt (by omega)]
    omega
  rw [gdtSetDescriptor, if_neg hlt, hi]
  rfl

theorem loadGdt_eq {t : Tables} {g : BitVec 16 × Word} (h : lgdt (t.mem.bytes 6 a.gdtr) = g) :
    loadGdt a t = { t with gdtr := g, mem := segmentLoads.foldl (writeEntry g.2) t.mem } := by
  subst h
  rfl

/-- `gdt_init` writes the descriptors one after the other, and then the task state; the processor
marks those that it loads. -/
theorem gdtInit_eq (t : Tables) : gdtInit a t =
    { t with
      mem := writeEntry a.gdt (((((segments a).map segmentOf) ++ segmentLoads).foldl
        (writeEntry a.gdt) (t.mem.modify 6 a.gdtr (gdtrEntry a))).modify TSS_SIZE a.tss tssEntry)
          (5, setAccess BUSY)
      gdtr := (BitVec.ofNat 16 (8 * MAX_DESCRIPTORS - 1), a.gdt)
      tr := (5 : Word) <<< 3 } := by
  have hinit : gdtInit a t = tssInstall a 5 (loadGdt a { t with
      mem := ((segments a).map segmentOf).foldl (writeEntry a.gdt)
        (t.mem.modify 6 a.gdtr (gdtrEntry a)) }) := by
    rw [gdtInit, tssInit, gdtSetDescriptor_eq (i := 0) (k := 0) rfl (by decide),
      gdtSetDescriptor_eq (i := 1) (k := 1) rfl (by decide),
      gdtSetDescriptor_eq (i := 2) (k := 2) rfl (by decide),
      gdtSetDescriptor_eq (i := 3) (k := 3) rfl (by decide),
      gdtSetDescriptor_eq (i := 4) (k := 4) rfl (by decide),
      gdtSetDescriptor_eq (i := 5) (k := 5) rfl (by decide)]
    rfl
  have hload := loadGdt_eq (t := { t with
      mem := ((segments a).map segmentOf).foldl (writeEntry a.gdt)
        (t.mem.modify 6 a.gdtr (gdtrEntry a)) }) (lgdt_segments t.mem)
  rw [hinit, hload, List.foldl_append]
  rfl

theorem DescribesSegment.marked {base limit : BitVec 64} {access grand b : Byte} {d : Descriptor}
    (h : DescribesSegment base limit access grand d) :
    DescribesSegment base limit (access ||| b) grand (setAccess b d) where
  base := by
    rw [← h.base]
    simp [segmentBase, setAccess, Bytes.u16, Bytes.get_write]
  limit := by
    rw [← h.limit]
    simp [segmentLimit, setAccess, Bytes.u16, Bytes.get_write]
  access := by
    rw [← h.access]
    simp [segmentAccess, setAccess, Bytes.get_write]
  flags := by
    rw [← h.flags]
    simp [segmentFlags, setAccess, Bytes.get_write]

theorem DescribesSegment.again {base limit : BitVec 64} {access grand b : Byte} {d : Descriptor}
    (h : DescribesSegment base limit (access ||| b) grand d) :
    DescribesSegment base limit (access ||| b) grand (setAccess b d) := by
  have hm := h.marked (b := b)
  rwa [BitVec.or_assoc, BitVec.or_self] at hm

theorem segment_gdtInit (t : Tables) {v : ℕ × BitVec 64 × BitVec 64 × Byte × Byte}
    (hv : (segments a)[v.1]? = some v) :
    DescribesSegment v.2.1 v.2.2.1 (v.2.2.2.1 ||| marks v.1) v.2.2.2.2
      ((gdtInit a t).mem.entry (entryAddr a.gdt (BitVec.ofNat 32 v.1))) := by
  have hlt : v.1 < MAX_DESCRIPTORS := (List.getElem?_eq_some_iff.mp hv).1
  have hint : v.1 < MAX_INTERRUPTS := hlt.trans (by decide)
  have hwrites : ∀ w ∈ (segments a).map segmentOf ++ segmentLoads, w.1 < MAX_INTERRUPTS :=
    fun w hw => (List.forall_mem_append.mpr ⟨segmentOf_lt, segmentLoads_lt⟩ w hw).trans (by decide)
  -- the task state is not in the table
  have htss : ∀ m : Mem, (m.modify TSS_SIZE a.tss tssEntry).entry
      (entryAddr a.gdt (BitVec.ofNat 32 v.1)) = m.entry (entryAddr a.gdt (BitVec.ofNat 32 v.1)) :=
    fun m => bytes_congr fun x hx => modify_of_notMem
      (Set.disjoint_left.mp (a.gdt_apart (a.tss, TSS_SIZE) (by simp)) (entry_subset hlt hx))
  have hbusy : ∀ m : Mem, (writeEntry a.gdt m (5, setAccess BUSY)).entry
      (entryAddr a.gdt (BitVec.ofNat 32 v.1)) = rewritten [(5, setAccess BUSY)] v.1
        (m.entry (entryAddr a.gdt (BitVec.ofNat 32 v.1))) :=
    fun m => @entry_writes m a.gdt [(5, setAccess BUSY)] v.1 (by simp [MAX_INTERRUPTS]) hint
  rw [gdtInit_eq]
  show DescribesSegment _ _ _ _ (Mem.entry (writeEntry _ _ _) _)
  rw [hbusy, htss, entry_writes hwrites hint, ← rewritten_append]
  obtain ⟨i, v⟩ := v
  simp only [MAX_DESCRIPTORS] at hlt
  interval_cases i <;> cases hv
  · exact describes_setDescriptor ..
  · exact (describes_setDescriptor ..).marked
  · exact (describes_setDescriptor ..).marked.again.again.again.again
  · exact describes_setDescriptor ..
  · exact describes_setDescriptor ..
  · exact (describes_setDescriptor ..).marked

theorem task_gdtInit (t : Tables) : ∃ d, (gdtInit a t).mem.bytes TSS_SIZE a.tss = tssEntry d := by
  rw [gdtInit_eq]
  refine ⟨_, (bytes_congr fun x hx => modify_of_notMem fun hx' => ?_).trans
    (bytes_modify (by decide) _ _ _)⟩
  exact Set.disjoint_right.mp (a.gdt_apart (a.tss, TSS_SIZE) (by simp)) hx
    (entry_subset (i := 5) (by decide) hx')

theorem tssEntry_ss0 (d : Bytes TSS_SIZE) : (tssEntry d).u32 8 = KERNEL_DS := by
  unfold tssEntry
  simp only
  iterate 6 rw [Bytes.u32_write_of_disjoint (.inl (by decide))]
  rw [Bytes.u32_write_of_disjoint (.inr (show 4 + 4 ≤ 8 by decide)), Bytes.u32_write _ (by decide)]

theorem tssEntry_esp0 (d : Bytes TSS_SIZE) : (tssEntry d).u32 4 = 0 := by
  unfold tssEntry
  simp only
  iterate 6 rw [Bytes.u32_write_of_disjoint (.inl (by decide))]
  rw [Bytes.u32_write _ (by decide)]

/-! ## What the processor finds -/

/-- An interrupt gate to `h` in the kernel's code segment, which code of the privilege level `p` may
use. -/
structure IsGate (h : Word) (p : BitVec 2) (d : Descriptor) : Prop where
  offset : gateOffset d = h
  selector : gateSelector d = KERNEL_CS.setWidth 16
  present : isPresent (gateAttr d) = true
  /-- A gate of the system with 32 bits that clears the interrupt flag. -/
  type : (gateAttr d).extractLsb' 0 5 = 0x0e
  privilege : privilege (gateAttr d) = p

/-- A segment over all of the memory, of the privilege level `p`. -/
structure IsFlat (p : BitVec 2) (code : Bool) (d : Descriptor) : Prop where
  base : segmentBase d = 0
  limit : segmentLimit d = 0xfffff
  /-- The limit is in pages, and the operands have 32 bits. -/
  flags : segmentFlags d = 0xc
  present : isPresent (segmentAccess d) = true
  /-- Code may be read, and data may be written. The lowest bit is left to the processor. -/
  type : (segmentAccess d).extractLsb' 1 4 = if code then 0xd else 0x9
  privilege : privilege (segmentAccess d) = p

/-- What is in the tables and the registers when they have been initialized. -/
structure Initialized (a : Layout) (t : Tables) : Prop where
  idtr : t.idtr = (BitVec.ofNat 16 (8 * MAX_INTERRUPTS), a.idt)
  gate : ∀ v < MAX_INTERRUPTS, IsGate (a.handler (vectorHandler v)) (if IsSystemCall v then 3 else 0)
    (t.mem.entry (entryAddr a.idt (BitVec.ofNat 32 v)))
  gdtr : t.gdtr = (BitVec.ofNat 16 (8 * MAX_DESCRIPTORS - 1), a.gdt)
  /-- The segment that a selector names has the level of the selector. -/
  segment : ∀ s ∈ [KERNEL_CS, KERNEL_DS, USER_CS, USER_DS], IsFlat (s.extractLsb' 0 2)
    (s = KERNEL_CS ∨ s = USER_CS) (t.mem.entry (entryAddr a.gdt (s >>> 3)))
  /-- The limit of the task state is an address, and not its size. The task is busy. -/
  task : DescribesSegment (a.tss.setWidth 64) ((a.tss + BitVec.ofNat 32 TSS_SIZE).setWidth 64)
    (0xe9 ||| BUSY) 0 (t.mem.entry (entryAddr a.gdt (t.tr >>> 3)))
  ss0 : (t.mem.bytes TSS_SIZE a.tss).u32 8 = KERNEL_DS
  esp0 : (t.mem.bytes TSS_SIZE a.tss).u32 4 = 0

theorem DescribesGate.isGate {h : Word} {d : Descriptor} {v : ℕ}
    (hd : DescribesGate (vectorAttr v) KERNEL_CODE_SEGMENT_OFFSET (h.setWidth 64) d) :
    IsGate h (if IsSystemCall v then 3 else 0) d := by
  have hattr := hd.attr
  refine ⟨?_, hd.selector, ?_, ?_, ?_⟩
  · rw [hd.offset, BitVec.setWidth_setWidth_of_le _ (by decide), BitVec.setWidth_eq]
  all_goals
    rw [hattr, vectorAttr]
    split_ifs <;> rfl

theorem DescribesSegment.isFlat {access : Byte} {d : Descriptor}
    (hd : DescribesSegment 0 0xffffffff access 0xcf d) (hp : isPresent access = true) {code : Bool}
    (hc : access.extractLsb' 1 4 = if code then 0xd else 0x9) :
    IsFlat (privilege access) code d := by
  have haccess := hd.access
  exact ⟨hd.base, hd.limit, hd.flags, haccess ▸ hp, haccess ▸ hc, haccess ▸ rfl⟩

theorem segment_halInitialize (t : Tables) {v : ℕ × BitVec 64 × BitVec 64 × Byte × Byte}
    (hv : (segments a)[v.1]? = some v) :
    DescribesSegment v.2.1 v.2.2.1 (v.2.2.2.1 ||| marks v.1) v.2.2.2.2
      ((halInitialize a t).mem.entry (entryAddr a.gdt (BitVec.ofNat 32 v.1))) := by
  have hlt : v.1 < MAX_DESCRIPTORS := (List.getElem?_eq_some_iff.mp hv).1
  have happart := fun y hy => Set.disjoint_left.mp (a.gdt_apart y hy)
  have hsame : (halInitialize a t).mem.entry (entryAddr a.gdt (BitVec.ofNat 32 v.1)) =
      (gdtInit a t).mem.entry (entryAddr a.gdt (BitVec.ofNat 32 v.1)) := by
    refine bytes_congr fun x hx => halInitialize_of_notMem t ?_ ?_
    · exact happart (a.idt, 8 * MAX_INTERRUPTS) (by simp) (entry_subset hlt hx)
    · exact happart (a.idtPtr, 8) (by simp) (entry_subset hlt hx)
  rw [hsame]
  exact segment_gdtInit t hv

theorem halInitialize_registers (t : Tables) :
    (halInitialize a t).gdtr = (gdtInit a t).gdtr ∧ (halInitialize a t).tr = (gdtInit a t).tr := by
  unfold halInitialize idtInit
  exact ⟨rfl, rfl⟩

theorem task_halInitialize (t : Tables) :
    ∃ d, (halInitialize a t).mem.bytes TSS_SIZE a.tss = tssEntry d := by
  obtain ⟨d, hd⟩ := task_gdtInit (a := a) t
  refine ⟨d, (bytes_congr fun x hx => halInitialize_of_notMem t ?_ ?_).trans hd⟩
  · exact Set.disjoint_right.mp (a.idt_apart (a.tss, TSS_SIZE) (by simp)) hx
  · exact Set.disjoint_left.mp (a.tss_apart (a.idtPtr, 8) (by simp)) hx

/-- **The tables are initialized.** -/
theorem halInitialize_initialized (a : Layout) (t : Tables) : Initialized a (halInitialize a t) where
  idtr := idtr_halInitialize t
  gate v hv := (gate_halInitialize t hv).isGate
  gdtr := by
    rw [(halInitialize_registers t).1, gdtInit_eq]
  segment s hs := by
    simp only [List.mem_cons, List.not_mem_nil, or_false] at hs
    rcases hs with rfl | rfl | rfl | rfl
    · exact (segment_halInitialize (v := (1, 0, 0xffffffff, 0x9a, 0xcf)) t rfl).isFlat rfl rfl
    · exact (segment_halInitialize (v := (2, 0, 0xffffffff, 0x92, 0xcf)) t rfl).isFlat rfl rfl
    · exact (segment_halInitialize (v := (3, 0, 0xffffffff, 0xfa, 0xcf)) t rfl).isFlat rfl rfl
    · exact (segment_halInitialize (v := (4, 0, 0xffffffff, 0xf2, 0xcf)) t rfl).isFlat rfl rfl
  task := by
    have hindex : ((5 : Word) <<< 3) >>> 3 = BitVec.ofNat 32 5 := by decide
    have htr : (gdtInit a t).tr = (5 : Word) <<< 3 := by rw [gdtInit_eq]
    rw [(halInitialize_registers t).2, htr, hindex]
    exact segment_halInitialize (v := (5, _, _, 0xe9, 0)) t rfl
  ss0 := by
    obtain ⟨d, hd⟩ := task_halInitialize (a := a) t
    rw [hd, tssEntry_ss0]
  esp0 := by
    obtain ⟨d, hd⟩ := task_halInitialize (a := a) t
    rw [hd, tssEntry_esp0]

end AdvancedOS
