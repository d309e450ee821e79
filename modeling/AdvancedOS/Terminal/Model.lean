import AdvancedOS.Str.Code
import AdvancedOS.Task.Model

/-!
# Terminals and the screen

The video memory, the hardware cursor and `terminal_list`, and the output functions of `stdio.h` and
`terminal.h` on them. `curr_terminal` and `tmp_terminal` belong to the kernel variables; the
functions take them as a `Routing`.

* `Console`: what is shown and what the terminals store;
* `putchar`, `print`, `clearScreen`: output, which goes to the video memory or to the buffer of
  `tmp_terminal`;
* `Console.changeTerminal`.

A store outside the `VIDEO_SIZE` bytes of a screen is `none`.
-/

namespace AdvancedOS

def MAX_ROWS : ℕ := 25
def MAX_COLS : ℕ := 80
def VIDEO_SIZE : ℕ := 80 * 32 * 2

/-- The bytes of a screen. -/
abbrev Screen := Fin VIDEO_SIZE → Byte

/-- `struct terminal`; `num` is the index of the entry. -/
structure Terminal where
  cursor : ℤ
  buf : Screen
  path : CStr
  dir : ℕ

/-- `curr_terminal` and `tmp_terminal`, as indices into `terminal_list`. -/
structure Routing where
  curr : ℕ
  tmp : ℕ

/-- The screen, `terminal_list`, and the other variables that the functions use. The registers of
the hardware cursor hold 16 bits. -/
structure Console where
  video : Screen
  hwCursor : BitVec 16
  terminalList : ℕ → Terminal
  attributeVal : Byte
  currPath : CStr
  currDir : ℕ

/-- The pointers of the kernel. -/
def Kernel.routing (k : Kernel) : Routing := ⟨k.currTerminal, k.tmpTerminal⟩

namespace Screen

/-- The byte at the offset `i`. -/
def load (b : Screen) (i : ℕ) : Byte := if h : i < VIDEO_SIZE then b ⟨i, h⟩ else 0

/-- Store `x` at the offset `i`. -/
def store (b : Screen) (i : ℤ) (x : Byte) : Option Screen :=
  if h : 0 ≤ i ∧ i.toNat < VIDEO_SIZE then some (Function.update b ⟨i.toNat, h.2⟩ x) else none

/-- Replace the byte at the offset `i`, which lies on the screen. -/
def set (b : Screen) (i : ℕ) (x : Byte) : Screen := fun j => if (j : ℕ) = i then x else b j

end Screen

namespace Console

/-- Update the entry `i` of `terminal_list`. -/
@[simps -fullyApplied]
def setTerminal (i : ℕ) (f : Terminal → Terminal) (c : Console) : Console :=
  { c with terminalList := Function.update c.terminalList i (f (c.terminalList i)) }

/-- The bytes at `get_terminal_buf_addr()`. -/
def screen (r : Routing) (c : Console) : Screen :=
  if r.curr = r.tmp then c.video else (c.terminalList r.tmp).buf

/-- Replace the bytes at `get_terminal_buf_addr()`. -/
def setScreen (r : Routing) (b : Screen) (c : Console) : Console :=
  if r.curr = r.tmp then { c with video := b } else c.setTerminal r.tmp fun t => { t with buf := b }

end Console

/-! ## Output -/

/-- `set_cursor`. -/
def setCursor (r : Routing) (offset : ℤ) (c : Console) : Console :=
  if r.curr = r.tmp then { c with hwCursor := BitVec.ofInt 16 (offset.tdiv 2) }
  else c.setTerminal r.tmp fun t => { t with cursor := offset }

/-- `get_cursor`. -/
def getCursor (r : Routing) (c : Console) : ℤ :=
  if r.curr = r.tmp then c.hwCursor.toNat * 2 else (c.terminalList r.tmp).cursor

/-- `get_screen_offset`. -/
def getScreenOffset (col row : ℤ) : ℤ := (row * MAX_COLS + col) * 2

/-- `memory_copy` within a screen, from the offset `src` to the offset `dst`. -/
def memoryCopy (src dst : ℕ) : ℕ → Screen → Screen
  | 0, b => b
  | n + 1, b =>
    let b := memoryCopy src dst n b
    b.set (dst + n) (b.load (src + n))

/-- The first loop of `handle_scrolling`: the rows from `i` on are shuffled back, `n` of them. -/
def shuffleRows (i : ℕ) : ℕ → Screen → Screen
  | 0, b => b
  | n + 1, b => shuffleRows (i + 1) n
      (memoryCopy (i * (MAX_COLS * 2)) ((i - 1) * (MAX_COLS * 2)) (MAX_COLS * 2) b)

/-- The second loop: the last line is set to 0. -/
def blankLine (i : ℕ) : ℕ → Screen → Screen
  | 0, b => b
  | n + 1, b => (blankLine i n b).set (i + n) 0

/-- `handle_scrolling`. -/
def handleScrolling (r : Routing) (offset : ℤ) (c : Console) : ℤ × Console :=
  if offset < MAX_ROWS * MAX_COLS * 2 then (offset, c)
  else
    let b := shuffleRows 1 (MAX_ROWS - 1) (c.screen r)
    let b := blankLine ((MAX_ROWS - 1) * (MAX_COLS * 2)) (MAX_COLS * 2) b
    (offset - 2 * MAX_COLS, c.setScreen r b)

/-- The character `x` with its attribute at `offset`. -/
def Screen.putCell (b : Screen) (offset : ℤ) (x attr : Byte) : Option Screen := do
  (← b.store offset x).store (offset + 1) attr

/-- `putchar`. -/
def putchar (r : Routing) (character : Byte) (col row : ℤ) (attributeByte : Byte) (c : Console) :
    Option Console := do
  let attr := if attributeByte = 0 then c.attributeVal else attributeByte
  let offset := if 0 ≤ col ∧ 0 ≤ row then getScreenOffset col row else getCursor r c
  let (offset, b) ←
    if character = 0x0A then
      pure (getScreenOffset 79 (offset.tdiv (2 * MAX_COLS)), c.screen r)
    else if character = 0x08 then do
      let b ← (c.screen r).putCell (offset - 2) 0x20 attr
      pure (offset - 2 - 2, b)
    else do
      let b ← (c.screen r).putCell offset character attr
      pure (offset, b)
  let (offset, c) := handleScrolling r (offset + 2) (c.setScreen r b)
  return setCursor r offset c

/-- `print`. -/
def print (r : Routing) (message : CStr) (c : Console) : Option Console :=
  message.toList.foldlM (fun c x => putchar r x (-1) (-1) c.attributeVal c) c

/-- The inner loop of `clear_screen`, from the column `col` on. -/
def clearRow (r : Routing) (row col : ℕ) : ℕ → Console → Option Console
  | 0, c => some c
  | n + 1, c => do clearRow r row (col + 1) n (← putchar r 0x20 col row c.attributeVal c)

/-- The outer loop, from the row `row` on. -/
def clearRows (r : Routing) (row : ℕ) : ℕ → Console → Option Console
  | 0, c => some c
  | n + 1, c => do clearRows r (row + 1) n (← clearRow r row 0 MAX_COLS c)

/-- `clear_screen`. -/
def clearScreen (r : Routing) (c : Console) : Option Console := do
  return setCursor r (getScreenOffset 0 0) (← clearRows r 0 MAX_ROWS c)

/-! ## Terminals -/

/-- What `change_terminal` leaves in `curr_terminal` and `tmp_terminal`. -/
def Routing.change (idle : Prop) [Decidable idle] (newTer : ℕ) (r : Routing) : Routing :=
  ⟨newTer, if idle then newTer else r.tmp⟩

/-- The part of `change_terminal` before the pointers change. -/
def saveTerminal (r : Routing) (c : Console) : Console :=
  let c := c.setTerminal r.curr fun t => { t with buf := c.video }
  let c := c.setTerminal r.curr fun t => { t with cursor := getCursor r c }
  let c := c.setTerminal r.curr fun t => { t with path := c.currPath }
  c.setTerminal r.curr fun t => { t with dir := c.currDir }

/-- The part of `change_terminal` after `clear_screen()`. -/
def showTerminal (r : Routing) (c : Console) : Console :=
  let c := { c with video := (c.terminalList r.curr).buf }
  let c := setCursor r (c.terminalList r.curr).cursor c
  let c := { c with currPath := (c.terminalList r.curr).path }
  { c with currDir := (c.terminalList r.curr).dir }

/-- `change_terminal`, on the screen and the terminals; `idle` says that `get_proc()` is `NULL`. -/
def Console.changeTerminal (r : Routing) (idle : Prop) [Decidable idle] (newTer : ℕ) (c : Console) :
    Option Console := do
  let r' := r.change idle newTer
  return showTerminal r' (← clearScreen r' (saveTerminal r c))

end AdvancedOS
