import AdvancedOS.File.Code
import AdvancedOS.User.Store

/-!
# Loading an executable

* `Elf.SafeFrom`, `Elf.safeFrom_iff`: **`parse_elf` stays inside its arrays and inside the area of the
  process exactly if the sizes and offsets in the file fit**; nothing but the magic number is looked at;
* `Elf.not_safeFrom`: a header size that is too large;
* `Elf.Executable`, `Elf.Builds`: well-formed files, and what loading one should come to;
* `Elf.loads_first`: **the segment of the first header is loaded, and nothing else**;
* `Elf.not_builds`: a file with two segments.
-/

namespace AdvancedOS

open Bytes

variable {img : BinImg} {addrExec x : Word} {ph : Bytes 32} {f : Fs} {o : Word} {n j : ℕ}

/-! ## Staying inside the arrays -/

/-- Started in `f`, `parse_elf` reads and copies inside the arrays and stores inside the area at
`addr_exec`, or it rejects the file. -/
def Elf.SafeFrom (ph : Bytes 32) (img : BinImg) (addrExec : Word) (f : Fs) : Prop :=
  Ends (parseElf ph img addrExec) f (fun _ f' => ∀ x, x ∉ area addrExec → f'.mem x = f.mem x)
    fun e _ => e = .loops

/-- Once the magic number is right, no file is rejected. -/
theorem ends_headerLoop_fault (i : ℕ) : Ends (headerLoop img addrExec n i o ph) f
    (fun _ _ => True) fun e _ => e = .fault .bounds := by
  induction n generalizing i o ph f with
  | zero => exact (ends_pure _).mpr trivial
  | succ n ih =>
    simp only [headerLoop, ends_ite, ends_outOfBounds, ends_bind, ends_modify]
    refine ⟨fun _ => trivial, fun _ => ⟨fun _ => ⟨fun _ => trivial, fun _ => ih _⟩, fun _ => ih _⟩⟩

theorem ends_parseElf_fault (hm : Elf.magic img = ELF_MAGIC) :
    Ends (parseElf ph img addrExec) f (fun _ _ => True) fun e _ => e = .fault .bounds := by
  simp only [parseElf, ends_ite, ends_throw, ends_bind, ends_pure]
  exact ⟨fun h => absurd hm h, fun _ => ends_headerLoop_fault 0⟩

theorem Elf.fits_of_safeFrom (hm : Elf.magic img = ELF_MAGIC) (h : Elf.SafeFrom ph img addrExec f) :
    Elf.Fits ph img := by
  have hend := (h.and (ends_parseElf_fault hm)).and ends_parseElf
  refine (hend.mono ?_ ?_).elim
  · rintro e f' ⟨-, hfits, -⟩
    exact hfits
  · rintro e f' ⟨⟨rfl, he⟩, -⟩
    cases he

/-- **`parse_elf` is safe exactly if the file fits**, or has another magic number. -/
theorem Elf.safeFrom_iff (ph : Bytes 32) (img : BinImg) (addrExec : Word) (f : Fs) :
    Elf.SafeFrom ph img addrExec f ↔ (Elf.magic img = ELF_MAGIC → Elf.Fits ph img) := by
  constructor
  · exact fun h hm => Elf.fits_of_safeFrom hm h
  · intro h
    by_cases hm : Elf.magic img = ELF_MAGIC
    · refine ends_parseElf.mono ?_ ?_
      · rintro e f' ⟨hfits, -, rfl⟩ x hx
        apply loaded_of_notMem
        exact fun hx' => hx (span_subset (hfits.loadSize_le.trans (by decide)) hx')
      · rintro e f' ⟨hfits, -⟩
        exact absurd (h hm) hfits
    · rw [Elf.SafeFrom, parseElf, if_pos hm]
      exact (ends_throw _).mpr rfl

/-! ## Samples -/

/-- A file with the bytes `rest` behind its header, which says that the program headers come there. -/
def elfFile (entry : Word) (phentsize phnum : BitVec 16) (rest : List Byte) : BinImg :=
  .ofList (le32 ELF_MAGIC ++ List.replicate 20 0 ++ le32 entry ++ le32 52 ++ List.replicate 10 0 ++
    le16 phentsize ++ le16 phnum ++ List.replicate 6 0 ++ rest)

/-- A program header. -/
def programHeader (type offset va filesz memsz : Word) : List Byte :=
  le32 type ++ le32 offset ++ le32 va ++ le32 va ++ le32 filesz ++ le32 memsz ++ le32 0 ++ le32 0

/-- A file with one header of 64 bytes. -/
theorem Elf.not_safeFrom : Elf.magic (elfFile 0 64 1 []) = ELF_MAGIC ∧
    ¬ Elf.SafeFrom (fun _ => 0) (elfFile 0 64 1 []) outAddr formatted := by
  have hm : Elf.magic (elfFile 0 64 1 []) = ELF_MAGIC := by decide +kernel
  refine ⟨hm, fun h => ?_⟩
  have hin := (Elf.fits_of_safeFrom hm h).headers 0 (by decide +kernel)
  exact absurd hin.1 (by decide +kernel)

/-! ## What is loaded -/

def ELF_PT_LOAD : Word := 1

namespace Elf

/-- `p_type`. -/
def type (ph : Bytes 32) : Word := ph.u32 0

/-- `p_va`. -/
def va (ph : Bytes 32) : Word := ph.u32 8

/-- `p_filesz`. -/
def filesz (ph : Bytes 32) : Word := ph.u32 16

/-- The program header `i`. -/
def prghdr (img : BinImg) (i : ℕ) : Bytes 32 := .ofList (img.slice ((phoff img).toNat + 32 * i) 32)

/-- The header `i` names a segment to be loaded. -/
def IsSegment (img : BinImg) (i : ℕ) : Prop := i < phnum img ∧ type (prghdr img i) = ELF_PT_LOAD

/-- Where a header says that its segment is to be. -/
def place (ph : Bytes 32) : Set Word := span (va ph) (memsz ph).toNat

/-- The first `len` bytes of `bin_img` are a well-formed executable. -/
structure Executable (img : BinImg) (len : ℕ) : Prop where
  length : len ≤ BIN_SIZE
  magic : magic img = ELF_MAGIC
  entsize : phentsize img = 32
  headers : (phoff img).toNat + 32 * phnum img ≤ len
  file : ∀ i < phnum img, (offset (prghdr img i)).toNat + (filesz (prghdr img i)).toNat ≤ len
  sizes : ∀ i, IsSegment img i → (filesz (prghdr img i)).toNat ≤ (memsz (prghdr img i)).toNat
  user : ∀ i, IsSegment img i → ADDR_USER_START.toNat ≤ (va (prghdr img i)).toNat ∧
    (va (prghdr img i)).toNat + (memsz (prghdr img i)).toNat ≤ 2 ^ 32
  disjoint : ∀ i j, IsSegment img i → IsSegment img j → i ≠ j →
    ∀ x ∈ place (prghdr img i), x ∉ place (prghdr img j)

/-- `base` is the lowest address of a segment. -/
def Lowest (img : BinImg) (base : Word) : Prop :=
  (∃ i, IsSegment img i ∧ va (prghdr img i) = base) ∧
    ∀ i, IsSegment img i → base ≤ va (prghdr img i)

/-- The memory `m'` is `m` with the segments of the file. -/
structure Built (img : BinImg) (m m' : Mem) : Prop where
  bytes : ∀ i, IsSegment img i → ∀ j < (filesz (prghdr img i)).toNat,
    m' (va (prghdr img i) + BitVec.ofNat 32 j) = img.get ((offset (prghdr img i)).toNat + j)
  zeros : ∀ i, IsSegment img i → ∀ j < (memsz (prghdr img i)).toNat,
    (filesz (prghdr img i)).toNat ≤ j → m' (va (prghdr img i) + BitVec.ofNat 32 j) = 0
  others : ∀ x, (∀ i, IsSegment img i → x ∉ place (prghdr img i)) → m' x = m x

/-- Started in `f`, `parse_elf` builds the memory image at `base`. -/
def Builds (ph : Bytes 32) (img : BinImg) (base : Word) (f : Fs) : Prop :=
  Ends (parseElf ph img base) f (fun e f' => e = entry img ∧ Built img f.mem f'.mem) fun _ _ => False

/-- The memory `m'` is `m` with what the first header names, from `addr` on. -/
structure FirstLoaded (img : BinImg) (addr : Word) (m m' : Mem) : Prop where
  bytes : ∀ j < (memsz (prghdr img 0)).toNat, j < (filesz (prghdr img 0)).toNat →
    m' (addr + BitVec.ofNat 32 j) = img.get ((offset (prghdr img 0)).toNat + j)
  others : ∀ x, x ∉ span addr (memsz (prghdr img 0)).toNat → m' x = m x

end Elf

theorem BinImg.getElem?_slice (img : BinImg) (o n j : ℕ) :
    (img.slice o n)[j]? = if j < n ∧ o + j < BIN_SIZE then some (img.get (o + j)) else none := by
  rw [slice, List.getElem?_take, Bytes.getElem?_drop_ofFn]
  split_ifs with h₁ h₂ h₃ h₃
  · rfl
  · exact absurd ⟨h₁, h₂⟩ h₃
  · exact absurd h₃.2 h₂
  · rfl
  · exact absurd (And.left ‹_›) h₁
  · rfl

namespace Elf

theorem prghdr_u32 {i k : ℕ} (hi : (phoff img).toNat + 32 * i + 32 ≤ BIN_SIZE) (hk : k + 4 ≤ 32) :
    (prghdr img i).u32 k = img.u32 ((phoff img).toNat + 32 * i + k) := by
  have hget : ∀ j < 32, (prghdr img i).get j = img.get ((phoff img).toNat + 32 * i + j) := by
    intro j hj
    rw [get_of_lt hj, prghdr, Bytes.ofList, img.getElem?_slice, if_pos ⟨hj, by omega⟩]
    rfl
  simp only [u32, u16, Nat.add_assoc, hget k (by omega), hget (k + 1) (by omega),
    hget (k + 2) (by omega), hget (k + (2 + 1)) (by omega)]

/-- A header of 32 bytes leaves nothing of what was in `ph` before. -/
theorem header_eq (hsize : phentsize img = 32) {o : ℕ} (ho : o + 32 ≤ BIN_SIZE) (ph : Bytes 32) :
    header img o ph = .ofList (img.slice o 32) := by
  funext i
  have hget := img.getElem?_slice o 32 i
  rw [if_pos ⟨i.isLt, by omega⟩] at hget
  show (if 0 ≤ (i : ℕ) then (img.slice o (phentsize img))[(i : ℕ) - 0]?.getD (ph i) else ph i) = _
  rw [if_pos (Nat.zero_le _), Nat.sub_zero, hsize, hget]
  show _ = (img.slice o 32)[(i : ℕ)]?.getD 0
  rw [hget]
  rfl

variable {len : ℕ}

theorem Executable.inside (h : Executable img len) {i : ℕ} (hi : i < phnum img) :
    Inside img (phoff img + BitVec.ofNat 32 (i * phentsize img)) := by
  have hhead := h.headers
  have hlen := h.length
  have hbin : BIN_SIZE = 15360 := rfl
  rw [Inside, h.entsize]
  refine ⟨le_rfl, .inr ?_⟩
  rw [BitVec.toNat_add, BitVec.toNat_ofNat]
  have hmod : ((phoff img).toNat + i * 32 % 2 ^ 32) % 2 ^ 32 ≤ (phoff img).toNat + i * 32 :=
    (Nat.mod_le _ _).trans (Nat.add_le_add_left (Nat.mod_le _ _) _)
  omega

theorem Executable.header_first (h : Executable img len) (hpos : 0 < phnum img) (ph : Bytes 32) :
    header img (phoff img).toNat ph = prghdr img 0 := by
  have hhead := h.headers
  have hlen := h.length
  exact header_eq h.entsize (by omega) ph

/-- **The segment of the first header is loaded, and nothing else.** -/
theorem loads_first {img : BinImg} {len : ℕ} (h : Executable img len) (hpos : 0 < phnum img)
    (hin : InImage (offset (prghdr img 0)).toNat (memsz (prghdr img 0)).toNat) (ph : Bytes 32)
    (addrExec : Word) (f : Fs) :
    Ends (parseElf ph img addrExec) f
      (fun e f' => e = entry img ∧ FirstLoaded img addrExec f.mem f'.mem) fun _ _ => False := by
  have hfirst := h.header_first hpos ph
  have hfits : Fits ph img := ⟨h.magic, fun i hi => h.inside hi, fun _ => hfirst ▸ hin⟩
  refine ends_parseElf.mono ?_ ?_
  · rintro e f' ⟨-, he, rfl⟩
    refine ⟨he, fun j hj hfile => ?_, fun x hx => ?_⟩
    · have hlen : (offset (prghdr img 0)).toNat + j < BIN_SIZE := by
        rcases hin with hin | hin <;> omega
      have hsub : addrExec + BitVec.ofNat 32 j - addrExec = BitVec.ofNat 32 j := by
        rw [BitVec.add_comm, BitVec.add_sub_cancel]
      have hj' : (BitVec.ofNat 32 j).toNat = j := by
        rw [BitVec.toNat_ofNat, Nat.mod_eq_of_lt (hj.trans (BitVec.isLt _))]
      show loaded ph img addrExec f.mem _ = _
      rw [loaded, if_neg hpos.ne', hfirst]
      unfold Mem.store
      rw [hsub, hj', img.getElem?_slice, if_pos ⟨hj, hlen⟩]
      rfl
    · apply loaded_of_notMem
      rw [loadSize, if_neg hpos.ne', hfirst]
      exact hx
  · rintro e f' ⟨hn, -⟩
    exact hn hfits

/-- A file with two segments of one byte. -/
def twoSegments : BinImg :=
  elfFile 0x80000 32 2 (programHeader 1 116 0x80000 1 1 ++ programHeader 1 117 0x80100 1 1 ++
    [0x90, 0xC3])

theorem twoSegments_fields {i : ℕ} (hi : i < 2) :
    type (prghdr twoSegments i) = ELF_PT_LOAD ∧
    offset (prghdr twoSegments i) = BitVec.ofNat 32 (116 + i) ∧
    va (prghdr twoSegments i) = BitVec.ofNat 32 (0x80000 + 0x100 * i) ∧
    filesz (prghdr twoSegments i) = 1 ∧ memsz (prghdr twoSegments i) = 1 := by
  have hoff : (phoff twoSegments).toNat = 52 := by decide +kernel
  have hin : (phoff twoSegments).toNat + 32 * i + 32 ≤ BIN_SIZE := by
    have hbin : BIN_SIZE = 15360 := rfl
    omega
  rw [type, offset, va, filesz, memsz, prghdr_u32 hin (by decide), prghdr_u32 hin (by decide),
    prghdr_u32 hin (by decide), prghdr_u32 hin (by decide), prghdr_u32 hin (by decide), hoff]
  clear hin
  revert hi
  revert i
  decide +kernel

theorem phnum_twoSegments : phnum twoSegments = 2 := by decide +kernel

theorem isSegment_twoSegments {i : ℕ} : IsSegment twoSegments i ↔ i < 2 := by
  rw [IsSegment, phnum_twoSegments]
  exact and_iff_left_of_imp fun hi => (twoSegments_fields hi).1

theorem executable_twoSegments : Executable twoSegments 118 where
  length := by decide
  magic := by decide +kernel
  entsize := by decide +kernel
  headers := by decide +kernel
  file := by
    rw [phnum_twoSegments]
    intro i hi
    obtain ⟨-, hoff, -, hfile, -⟩ := twoSegments_fields hi
    rw [hoff, hfile, BitVec.toNat_ofNat]
    show (116 + i) % 2 ^ 32 + 1 ≤ 118
    omega
  sizes := by
    intro i hi
    obtain ⟨-, -, -, hfile, hmem⟩ := twoSegments_fields (isSegment_twoSegments.mp hi)
    rw [hfile, hmem]
  user := by
    intro i hi
    have hi := isSegment_twoSegments.mp hi
    obtain ⟨-, -, hva, -, hmem⟩ := twoSegments_fields hi
    rw [hva, hmem, BitVec.toNat_ofNat]
    show 0x20000 ≤ (0x80000 + 0x100 * i) % 2 ^ 32 ∧ (0x80000 + 0x100 * i) % 2 ^ 32 + 1 ≤ 2 ^ 32
    omega
  disjoint := by
    intro i j hi hj hne x hx hx'
    have hi := isSegment_twoSegments.mp hi
    have hj := isSegment_twoSegments.mp hj
    obtain ⟨-, -, hva, -, hmem⟩ := twoSegments_fields hi
    obtain ⟨-, -, hva', -, hmem'⟩ := twoSegments_fields hj
    have h1 : (1 : Word).toNat = 1 := rfl
    rw [place, hva, hmem, mem_span, h1] at hx
    rw [place, hva', hmem', mem_span, h1] at hx'
    bv_omega

theorem loads_first_twoSegments :
    Ends (parseElf (fun _ => 0) twoSegments 0x80000) formatted
      (fun e f' => e = entry twoSegments ∧ FirstLoaded twoSegments 0x80000 formatted.mem f'.mem)
      fun _ _ => False :=
  loads_first executable_twoSegments (by rw [phnum_twoSegments]; decide)
    (by
      obtain ⟨-, hoff, -, -, hmem⟩ := twoSegments_fields (i := 0) (by decide)
      rw [hoff, hmem]
      decide) _ _ _

/-- The second segment of a file is not loaded. -/
theorem not_builds : Executable twoSegments 118 ∧ Lowest twoSegments 0x80000 ∧
    ¬ Builds (fun _ => 0) twoSegments 0x80000 formatted := by
  refine ⟨executable_twoSegments, ⟨⟨0, isSegment_twoSegments.mpr (by decide),
    (twoSegments_fields (by decide)).2.2.1⟩, fun i hi => ?_⟩, fun h => ?_⟩
  · have hi := isSegment_twoSegments.mp hi
    rw [(twoSegments_fields hi).2.2.1, BitVec.le_def, BitVec.toNat_ofNat]
    show 0x80000 ≤ (0x80000 + 0x100 * i) % 2 ^ 32
    omega
  · refine ((h.and ends_parseElf).mono ?_ ?_).elim
    · rintro e f' ⟨⟨-, hb⟩, -, -, rfl⟩
      obtain ⟨-, hoff, hva, hfile, -⟩ := twoSegments_fields (i := 1) (by decide)
      have hbyte := hb.bytes 1 (isSegment_twoSegments.mpr (by decide)) 0 (by rw [hfile]; decide)
      have hout : loaded (fun _ => 0) twoSegments 0x80000 formatted.mem 0x80100 = 0 := by
        apply loaded_of_notMem
        rw [loadSize, phnum_twoSegments, if_neg (by decide),
          executable_twoSegments.header_first (by rw [phnum_twoSegments]; decide),
          (twoSegments_fields (i := 0) (by decide)).2.2.2.2, mem_span]
        decide
      rw [hva, hoff] at hbyte
      have hzero : (0 : Byte) = twoSegments.get 117 := hout.symm.trans hbyte
      exact absurd hzero (by decide +kernel)
    · rintro e f' ⟨hf, -⟩
      exact hf

end Elf

end AdvancedOS
