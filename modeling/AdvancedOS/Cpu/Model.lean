import Mathlib.Data.BitVec

/-!
# Registers, interrupt frames and the assembly stubs

The register file of the processor, the words that an interrupt leaves on the kernel stack, and
the stubs of `kernel_entry.asm` that push and pop them around the C handlers.

* `Regs`: `struct regs` of `task.h`, which is also the parameter list of `save_proc`,
  `pit_handler_main` and `restart_proc`;
* `interrupt`, `pusha`, `entryStack`: the pushes of the processor and of the entry stubs;
* `cdecl`, `Regs.args`: the parameters a C function reads from the stack, and the words a C caller
  puts there;
* `popa`, `iretd`, `restartProc`: the pops of `restart_proc`.

The kernel stack is a list of words, its top first.
-/

namespace AdvancedOS

/-- `uint32_t`. -/
abbrev Word := BitVec 32

/-- The kernel stack, top first. -/
abbrev Stack := List Word

def KERNEL_CS : Word := 0x08
def KERNEL_DS : Word := 0x10
def USER_CS : Word := 0x1b
def USER_DS : Word := 0x23

/-- `struct regs`. -/
structure Regs where
  gs : Word := 0
  fs : Word := 0
  es : Word := 0
  ds : Word := 0
  edi : Word := 0
  esi : Word := 0
  ebp : Word := 0
  esp : Word := 0
  ebx : Word := 0
  edx : Word := 0
  ecx : Word := 0
  eax : Word := 0
  eip : Word := 0
  cs : Word := 0
  eflags : Word := 0
  userEsp : Word := 0
  ss : Word := 0
  deriving DecidableEq

/-- The register file. A selector is given as the word that `push` puts on the stack; only its low
half is the selector itself. -/
structure Cpu where
  gs : Word := 0
  fs : Word := 0
  es : Word := 0
  ds : Word := 0
  edi : Word := 0
  esi : Word := 0
  ebp : Word := 0
  ebx : Word := 0
  edx : Word := 0
  ecx : Word := 0
  eax : Word := 0
  eip : Word := 0
  cs : Word := 0
  eflags : Word := 0
  esp : Word := 0
  ss : Word := 0
  deriving DecidableEq

/-- The requested privilege level of a selector is 3. -/
def isUser (cs : Word) : Bool := cs &&& 3 = 3

/-- What an interrupt finds: the register file, the stack pointer `pusha` stores, and the words
that lie on the kernel stack already. -/
structure Trap where
  cpu : Cpu := {}
  kesp : Word := 0
  below : Stack := []

/-! ## Entry -/

/-- The processor's pushes when an interrupt is taken: `ss` and `esp` only on a change of
privilege. -/
def interrupt (c : Cpu) (st : Stack) : Stack :=
  if isUser c.cs then c.eip :: c.cs :: c.eflags :: c.esp :: c.ss :: st
  else c.eip :: c.cs :: c.eflags :: st

def pusha (c : Cpu) (kesp : Word) (st : Stack) : Stack :=
  c.edi :: c.esi :: c.ebp :: kesp :: c.ebx :: c.edx :: c.ecx :: c.eax :: st

/-- The stack at the `call` of `pit_handler_entry`, of `save_proc_entry`, and of the two handlers
that repeat its pushes: `pusha`, then `push ds`, `push es`, `push fs`, `push gs`. -/
def entryStack (t : Trap) : Stack :=
  t.cpu.gs :: t.cpu.fs :: t.cpu.es :: t.cpu.ds :: pusha t.cpu t.kesp (interrupt t.cpu t.below)

/-! ## The C calling convention -/

/-- The `i`-th parameter of a `cdecl` function; `st` is the stack above the return address. -/
def param (st : Stack) (i : ℕ) : Word := st.getD i 0

/-- The parameters of `save_proc` and `pit_handler_main`, in the order of their declaration. -/
def cdecl (st : Stack) : Regs where
  gs := param st 0
  fs := param st 1
  es := param st 2
  ds := param st 3
  edi := param st 4
  esi := param st 5
  ebp := param st 6
  esp := param st 7
  ebx := param st 8
  edx := param st 9
  ecx := param st 10
  eax := param st 11
  eip := param st 12
  cs := param st 13
  eflags := param st 14
  userEsp := param st 15
  ss := param st 16

/-- The arguments that `proc_switch` passes to `restart_proc`, first argument on top. -/
def Regs.args (r : Regs) : Stack :=
  [r.gs, r.fs, r.es, r.ds,
    r.edi, r.esi, r.ebp, r.esp,
    r.ebx, r.edx, r.ecx, r.eax,
    r.eip,
    r.cs,
    r.eflags,
    r.userEsp,
    r.ss]

/-! ## Exit -/

/-- `pop` into the register that `f` sets. -/
def pop (f : Cpu → Word → Cpu) : Cpu × Stack → Cpu × Stack
  | (c, w :: st) => (f c w, st)
  | (c, []) => (c, [])

/-- A selector register keeps the low half of the word it is loaded with. -/
def sel (w : Word) : Word := w &&& 0xFFFF

/-- `popa`; the stored stack pointer is skipped. -/
def popa (x : Cpu × Stack) : Cpu × Stack :=
  x |> pop (fun c w => { c with edi := w }) |> pop (fun c w => { c with esi := w })
    |> pop (fun c w => { c with ebp := w }) |> pop (fun c _ => c)
    |> pop (fun c w => { c with ebx := w }) |> pop (fun c w => { c with edx := w })
    |> pop (fun c w => { c with ecx := w }) |> pop (fun c w => { c with eax := w })

/-- `iretd`; `esp` and `ss` are popped only on a return to another privilege level. -/
def iretd (x : Cpu × Stack) : Cpu × Stack :=
  let x := x |> pop (fun c w => { c with eip := w }) |> pop (fun c w => { c with cs := w })
    |> pop (fun c w => { c with eflags := w })
  if isUser x.1.cs then x |> pop (fun c w => { c with esp := w })
    |> pop (fun c w => { c with ss := w }) else x

/-- `restart_proc` past its return address: the register file it leaves. -/
def restartProc (c : Cpu) (st : Stack) : Cpu :=
  ((c, st) |> pop (fun c w => { c with gs := sel w }) |> pop (fun c w => { c with fs := sel w })
    |> pop (fun c w => { c with es := sel w }) |> pop (fun c w => { c with ds := sel w })
    |> popa |> iretd).1

/-! ## The layouts agree -/

theorem entryStack_user (t : Trap) (h : isUser t.cpu.cs = true) :
    entryStack t = (cdecl (entryStack t)).args ++ t.below := by
  simp [entryStack, pusha, interrupt, h, cdecl, param, Regs.args]

/-- **Every value returns to the register it came from.** -/
theorem restartProc_args (c : Cpu) (r : Regs) (h : isUser r.cs = true) :
    restartProc c r.args =
      { gs := sel r.gs, fs := sel r.fs, es := sel r.es, ds := sel r.ds,
        edi := r.edi, esi := r.esi, ebp := r.ebp, ebx := r.ebx, edx := r.edx, ecx := r.ecx,
        eax := r.eax, eip := r.eip, cs := r.cs, eflags := r.eflags, esp := r.userEsp,
        ss := r.ss } := by
  simp [restartProc, Regs.args, pop, popa, iretd, h]

end AdvancedOS
