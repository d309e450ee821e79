import AdvancedOS.Lib.Bytes
import AdvancedOS.Lib.Run

/-!
# The keyboard

The interrupt handler stores a character in `kb_char`; `getchar`, which `getline` calls, clears
`kb_char`, waits until it is set, and clears it again. The interrupt comes between any two steps of
the reader while the interrupt flag is set. A step is a statement of the C code, or the call of a
function that does not look at `kb_char`; `keyboard_handler` saves no registers, and what it does to
those of the reader is left out.

* `keyboardHandlerMain`: the handler;
* `Point`, `Reader`, `Reader.run`: the steps of `getline` and `getchar`;
* `KeyLabel`, `readerStep`: the reader and the interrupts.
-/

namespace AdvancedOS

/-! ## The handler -/

def KEY_CTRL : Byte := 0x1D
def KEY_F1 : Byte := 0x3B
def KEY_F2 : Byte := 0x3C
def KEY_F3 : Byte := 0x3D

def INVALID_KB_CHAR : Byte := 0

/-- The first column of `asccode`; the other one is never read. -/
def asccode : List Byte :=
  [0, 27] ++ ascii "1234567890-=" ++ [8, 9] ++ ascii "qwertyuiop[]" ++ [10, 0] ++
    ascii "asdfghjkl;'" ++ [0x60, 0, 0x5C] ++ ascii "zxcvbnm,./" ++ [0, 0, 0] ++ ascii " "
where
  ascii (s : String) : List Byte := s.toList.map fun c => BitVec.ofNat 8 c.toNat

/-- The static variables of `keyboard.h`. -/
structure Keyboard where
  kbChar : Byte
  ctrl : Bool

/-- `keyboard_handler_main`, with the bytes that the two ports give, and the terminal that
`change_terminal` is called with. `none` if `asccode` is read beyond its end. -/
def keyboardHandlerMain (status scancode : Byte) (kb : Keyboard) : Option (Keyboard × Option ℕ) :=
  if status &&& 0x01 = 0 then some (kb, none)
  else if scancode &&& 0x80 ≠ 0 then
    some (if scancode - 0x80 = KEY_CTRL then { kb with ctrl := false } else kb, none)
  else if scancode = KEY_CTRL then some ({ kb with ctrl := true }, none)
  else if kb.ctrl ∧ scancode = KEY_F1 then some (kb, some 0)
  else if kb.ctrl ∧ scancode = KEY_F2 then some (kb, some 1)
  else if kb.ctrl ∧ scancode = KEY_F3 then some (kb, some 2)
  else do
    let ascii ← asccode[scancode.toNat]?
    return ({ kb with kbChar := ascii }, none)

/-! ## The reader -/

/-- Where the shell is. -/
inductive Point where
  /-- In `getline`, before the call of `getchar`. -/
  | call
  /-- In `getchar`, before `kb_char` is cleared for the first time. -/
  | clear
  /-- Before the test of the loop, with the value of `c`. -/
  | test (c : Byte)
  /-- In the loop, before `c = kb_char`. -/
  | copy
  /-- After the loop, before `kb_char` is cleared for the second time. -/
  | clearAgain (c : Byte)
  | ret (c : Byte)
  /-- Back in `getline`, with the value of `ch`. -/
  | got (ch : Byte)
  /-- `ch` is in `res`, before `print_char(ch)`. -/
  | echo (ch : Byte)
  /-- A character has been taken back; so many calls that move the cursor or print are left. -/
  | erase (n : ℕ)
  /-- `getline` has returned, and a command is running. -/
  | command
  deriving DecidableEq

structure Reader where
  point : Point
  kb : Keyboard
  intFlag : Bool
  /-- The first `i` characters of `res`. -/
  res : List Byte
  /-- What the calls of `getchar` have returned so far. -/
  returned : List Byte
  /-- The characters of the keys pressed so far. -/
  pressed : List Byte

namespace Reader

/-- Set `kb_char`. -/
def setChar (c : Byte) (x : Reader) : Reader := { x with kb := { x.kb with kbChar := c } }

/-- A step of `getline` and `getchar`. What is printed does not touch these variables. -/
def run (x : Reader) : Option Reader :=
  match x.point with
  | .call => some { x with point := .clear }
  | .clear => some { x.setChar INVALID_KB_CHAR with point := .test INVALID_KB_CHAR }
  | .test c => some { x with point := if c = INVALID_KB_CHAR then .copy else .clearAgain c }
  | .copy => some { x with point := .test x.kb.kbChar }
  | .clearAgain c => some { x.setChar INVALID_KB_CHAR with point := .ret c }
  | .ret c => some { x with point := .got c, returned := x.returned ++ [c] }
  | .got ch =>
    if ch = 8 then
      if x.res = [] then some { x with point := .call }
      else some { x with point := .erase 3, res := x.res.dropLast }
    else some { x with point := .echo ch, res := x.res ++ [ch] }
  | .echo ch =>
    if ch = 13 ∨ ch = 10 then some { x with point := .command, res := x.res.dropLast }
    else some { x with point := .call }
  | .erase 0 => some { x with point := .call }
  | .erase (n + 1) => some { x with point := .erase n }
  | .command => none

end Reader

/-- The character of the key pressed, if the interrupt stores one. -/
def keyPressed (status scancode : Byte) (kb : Keyboard) : Option Byte :=
  if status &&& 0x01 = 0 ∨ scancode &&& 0x80 ≠ 0 ∨ scancode = KEY_CTRL ∨
      kb.ctrl ∧ scancode ∈ [KEY_F1, KEY_F2, KEY_F3] then none
  else asccode[scancode.toNat]?

inductive KeyLabel where
  /-- The reader goes on. -/
  | run
  /-- The command ends and leaves this interrupt flag; the shell calls `getline` again. -/
  | command (flag : Bool)
  | interrupt (status scancode : Byte)

/-- One step. A key that maps to the zero character is none. -/
def readerStep (x : Reader) : KeyLabel → Option Reader
  | .run => x.run
  | .command flag =>
    if x.point = .command then some { x with point := .call, intFlag := flag, res := [] } else none
  | .interrupt status scancode =>
    if x.intFlag then do
      let (kb, _) ← keyboardHandlerMain status scancode x.kb
      return { x with
        kb := kb
        pressed := x.pressed ++ (keyPressed status scancode x.kb).toList.filter (· ≠ 0) }
    else none

/-- The shell before its first call of `getline`. -/
def Reader.start : Reader where
  point := .call
  kb := ⟨INVALID_KB_CHAR, false⟩
  intFlag := true
  res := []
  returned := []
  pressed := []

end AdvancedOS
