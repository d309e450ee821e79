import AdvancedOS.User.Code

/-!
# The commands of `terminal_loop`

What `terminal_loop` runs once `getline` has returned: the line is split at the first blank, and the
command is called with what follows. What is printed is left out; `num` is the number that `scanf`
reads.

A timer interrupt that arrives where the flag is set either leaves for a process or returns with the
flag set, so it is let in where the state of the processes is looked at only, in `exec_user_prg`.
-/

namespace AdvancedOS

/-- The text of the command `write`. -/
def testMessage : CStr := .ofChars "This is a test message!".toList

/-- `read_int`: the number at the start of a string. -/
def readInt (s : CStr) : Word :=
  let digits (l : List Byte) : Word :=
    (l.takeWhile fun b => 0x30 ≤ b ∧ b ≤ 0x39).foldl
      (fun ret b => ret * 10 + (b.setWidth 32 - 0x30)) 0
  if s.toList.head? = some 0x2D then -digits s.toList.tail else digits s.toList

/-- `read_disk_test`, with the number that is typed. -/
def readDiskTest (num : Word) : SysKern Unit := do
  let _ ← onFs (readSectors num 1)

/-- A command with what follows it; `false` where the loop is left. -/
def command (junk : ℕ → Junk) (num : Word) (str : CStr) (rest : Option CStr) : SysKern Bool := do
  if str = .ofChars "help".toList then pure ()
  else if str = .ofChars "exit".toList then return false
  else if str = .ofChars "clr".toList then pure ()
  else if str = .ofChars "ls".toList then onFs fat12Ls
  else if str = .ofChars "cd".toList then
    let _ ← onFs do fat12Cd (← pointee rest)
  else if str = .ofChars "rm".toList then
    let _ ← onFs do fat12Rm (← pointee rest)
  else if str = .ofChars "write".toList then
    onFs (fat12CreateFile testMessage.toList testMessage.length (.ofChars "test.txt".toList))
  else if str = .ofChars "cp".toList then
    let t := strsep 0x20 rest
    let _ ← onFs do fat12Cp (← pointee t.1) (← pointee t.2)
  else if str = .ofChars "tick".toList then pure ()
  else if str = .ofChars "read".toList then readDiskTest num
  else if str = .ofChars "exec".toList then execUserPrg junk rest
  else pure () -- `command_not_found`
  return true

/-- The body of the loop from a line on: whether it comes to `getline` again. -/
def runLine (junk : ℕ → Junk) (num : Word) (str : CStr) : SysKern Bool :=
  command junk num (str.before 0x20) (strsep 0x20 (some str)).2

end AdvancedOS
