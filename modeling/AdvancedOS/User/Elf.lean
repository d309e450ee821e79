import AdvancedOS.User.Model

/-!
# The functions of `elf.h`

`parse_elf` copies the first segment of the image in `bin_img` to an address and returns the entry
point. Nothing but the magic number is checked: what is read from outside the arrays is a fault.
-/

namespace AdvancedOS

def ELF_MAGIC : Word := 0x464C457F
def BIN_SIZE : ℕ := 30 * 512

/-- `bin_img`. -/
abbrev BinImg := Bytes BIN_SIZE

/-- `n` bytes from offset `o` on. -/
def BinImg.slice (img : BinImg) (o n : ℕ) : List Byte := ((List.ofFn img).drop o).take n

/-- `memcpy` of `n` bytes from offset `o` on reads from `bin_img` only. -/
def InImage (o n : ℕ) : Prop := n = 0 ∨ o + n ≤ BIN_SIZE

instance (o n : ℕ) : Decidable (InImage o n) := inferInstanceAs (Decidable (_ ∨ _))

/-! ## `struct elfhdr` and `struct prghdr` -/

namespace Elf

def magic (img : BinImg) : Word := img.u32 0

def entry (img : BinImg) : Word := img.u32 24

def phoff (img : BinImg) : Word := img.u32 28

def phentsize (img : BinImg) : ℕ := (img.u16 42).toNat

def phnum (img : BinImg) : ℕ := (img.u16 44).toNat

/-- `p_offset`. -/
def offset (ph : Bytes 32) : Word := ph.u32 4

/-- `p_memsz`. -/
def memsz (ph : Bytes 32) : Word := ph.u32 20

/-- What the loop of `parse_elf` reads into `ph` at an offset. -/
def header (img : BinImg) (offset : ℕ) (ph : Bytes 32) : Bytes 32 :=
  ph.write 0 (img.slice offset (phentsize img))

/-- The number of bytes that are loaded; they come from the first header. -/
def loadSize (ph : Bytes 32) (img : BinImg) : ℕ :=
  if phnum img = 0 then 0 else (memsz (header img (phoff img).toNat ph)).toNat

end Elf

/-- The loop of `parse_elf`, from the counters `i` and `offset` on. -/
def headerLoop (img : BinImg) (addrExec : Word) : ℕ → ℕ → Word → Bytes 32 → FsKern Unit
  | 0, _, _, _ => pure ()
  | n + 1, i, offset, ph => do
    if 32 < Elf.phentsize img ∨ ¬ InImage offset.toNat (Elf.phentsize img) then outOfBounds
    else
      let ph := Elf.header img offset.toNat ph
      if i = 0 then
        if ¬ InImage (Elf.offset ph).toNat (Elf.memsz ph).toNat then outOfBounds
        else
          let l := img.slice (Elf.offset ph).toNat (Elf.memsz ph).toNat
          modify fun s => s.setMem (s.mem.store addrExec l)
      headerLoop img addrExec n (i + 1) (offset + BitVec.ofNat 32 (Elf.phentsize img)) ph

/-- `parse_elf`; `ph` is what its variable `ph` holds at first. -/
def parseElf (ph : Bytes 32) (img : BinImg) (addrExec : Word) : FsKern Word := do
  if Elf.magic img ≠ ELF_MAGIC then
    throw .loops -- `for(;;){}`
  else
    headerLoop img addrExec (Elf.phnum img) 0 (Elf.phoff img) ph
    return Elf.entry img

end AdvancedOS
