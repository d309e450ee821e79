import AdvancedOS.Terminal.Model

/-!
# The functions of `stdio.h` for text

Formatted output and input, and `itoa`, `read_int` and `getline`, which they call. A string is read at
an index, and reading it behind its terminating zero is a fault. The loops that count the `%` of a
format are left out, since their result is not used.

`sprintf` and `printf` are one loop with different ends, as are `sscanf` and `scanf`. Of `getline` there
are two sides: what it displays, for an array without an end, and what it stores in one of
`MAX_BUF_LEN` bytes.
-/

namespace AdvancedOS.Stdio

/-- What goes wrong in a function for text. -/
inductive StdFault where
  /-- A string is read behind its terminating zero, or in front of its start. -/
  | pastEnd
  /-- An array is indexed outside its bounds, or a number divided by zero. -/
  | bounds
  /-- A loop that does not end. -/
  | loops
  deriving DecidableEq

/-- `s[i]`. -/
def charAt (s : CStr) (i : ℤ) : Except StdFault Byte :=
  if 0 ≤ i ∧ i ≤ s.length then .ok (s.toList[i.toNat]?.getD 0) else .error .pastEnd

/-- The string at `&s[i]`. -/
def restAt (s : CStr) (i : ℕ) : List Byte := s.toList.drop i

def isdigit (c : Byte) : Bool := decide (0x30 ≤ c) && decide (c ≤ 0x39)

def isspace (c : Byte) : Bool := c == 0x20

/-! ## Numbers -/

/-- `bchars[n]`. -/
def bchars (n : ℕ) : Byte := if n < 10 then BitVec.ofNat 8 (0x30 + n) else BitVec.ofNat 8 (0x37 + n)

/-- The first loop of `itoa`: `tbuf` and `pos` in the end, if there is room for `n` digits more. -/
def itoaLoop (base : Word) : ℕ → Word → Bytes 32 → ℕ → Except StdFault (Bytes 32 × ℕ)
  | 0, i, tbuf, pos => if i = 0 then .ok (tbuf, pos) else .error .bounds
  | n + 1, i, tbuf, pos =>
    if i = 0 then .ok (tbuf, pos)
    else itoaLoop base n (i / base) (tbuf.write pos [bchars (i % base).toNat]) (pos + 1)

/-- `itoa`: the string in `buf`. The second loop takes the digits from the last one on. -/
def itoa (i base : Word) : Except StdFault CStr :=
  if i = 0 ∨ 16 < base then .ok (.ofChars ['0'])
  else if base = 0 then .error .bounds
  else do
    let (tbuf, top) ← itoaLoop base 32 i (fun _ => 0) 0
    return .ofList ((List.range top).map fun opos => tbuf.get (top - 1 - opos))

/-- The loop of `read_int`: `ret` and `cnt` in the end. -/
def readDigits : List Byte → Word → ℕ → Word × ℕ
  | [], ret, cnt => (ret, cnt)
  | c :: s, ret, cnt =>
    if isdigit c then readDigits s (ret * 10 + (c.setWidth 32 - 0x30)) (cnt + 1) else (ret, cnt)

/-- `read_int`: `*readNum`, and what is returned. -/
def readInt (s : List Byte) : Word × ℕ :=
  if s.head? = some 0x2D then
    let (ret, cnt) := readDigits s.tail 0 1
    (ret * -1, cnt)
  else
    let (ret, cnt) := readDigits s 0 0
    (ret * 1, cnt)

/-! ## Formatted output -/

/-- An argument, as a number, and the string that it points to as a `char *`. -/
structure Arg where
  word : Word
  text : CStr

/-- Where the output of a format goes to, by characters and by strings. -/
structure Output (σ : Type) where
  char : Byte → σ → σ
  str : CStr → σ → σ

section Format

variable {σ : Type} (out : Output σ) (format : CStr) (args : ℕ → Arg)

/-- The branches for the conversion `c`, with the number of arguments taken. -/
def convert (c : Byte) (k : ℕ) (s : σ) : Except StdFault (ℕ × σ) := do
  if c = 0x64 ∨ c = 0x69 then return (k + 1, out.str (← itoa (args k).word 10) s)
  else if c = 0x78 ∨ c = 0x58 then return (k + 1, out.str (← itoa (args k).word 16) s)
  else if c = 0x63 then return (k + 1, out.char ((args k).word.setWidth 8) s)
  else if c = 0x73 then return (k + 1, out.str (args k).text s)
  else if c = 0x25 then return (k, out.char 0x25 s)
  else return (k, s)

/-- `digitLength` for the conversion at `i`. -/
def digitLength (i : ℕ) : Except StdFault ℕ := do
  let c ← charAt format (i + 1)
  return if isdigit c ∨ c = 0x2D then (readInt (restAt format (i + 1))).2 else 0

/-- The loop of `sprintf` and `printf`, from the index `i` on. -/
def formatLoop : ℕ → ℕ → ℕ → σ → Except StdFault σ
  | 0, _, _, _ => .error .loops
  | n + 1, i, k, s => do
    let c ← charAt format i
    if c = 0 then return s
    else if c = 0x25 then
      let len ← digitLength format i
      let (k, s) ← convert out args (← charAt format (i + len + 1)) k s
      formatLoop n (i + (1 + len) + 1) k s
    else if c = 0x0A ∨ c = 0x0D then formatLoop n (i + 1) k (out.char 0x0A s)
    else formatLoop n (i + 1) k (out.char c s)

end Format

/-- `sprintf` appends to the string in `buf`. -/
def toBuffer : Output CStr where
  char c buf := strcat buf (.ofList [c])
  str s buf := strcat buf s

/-- `printf` prints character by character, with `putc`. -/
def printing {σ : Type} (putc : Byte → σ → σ) : Output σ where
  char := putc
  str s t := s.toList.foldl (fun t c => putc c t) t

/-- `sprintf`: the string in `buf`. -/
def sprintf (format : CStr) (args : ℕ → Arg) : Except StdFault CStr :=
  formatLoop toBuffer format args (format.length + 2) 0 0 (.ofList [])

/-- `print_char`. -/
def printChar (r : Routing) (x : Byte) (c : Console) : Option Console :=
  putchar r x (-1) (-1) c.attributeVal c

/-- `printf`, with the state `t` that the characters are printed to. -/
def printfTo {σ : Type} (putc : Byte → σ → σ) (format : CStr) (args : ℕ → Arg) (t : σ) :
    Except StdFault σ :=
  formatLoop (printing putc) format args (format.length + 2) 0 0 t

/-- `printf`; the console is `none` after a store outside the screen. -/
def printf (r : Routing) (format : CStr) (args : ℕ → Arg) (c : Option Console) :
    Except StdFault (Option Console) :=
  printfTo (fun x c => c.bind (printChar r x)) format args c

/-! ## Reading a line -/

/-- A line that is being read: what is in `res` up to the index `i`, whether `getline` has returned,
and the console. -/
structure Line where
  res : List Byte
  ended : Bool
  console : Console

/-- The branch of `getline` that moves the cursor around a blank. -/
def eraseChar (r : Routing) (c : Console) : Option Console := do
  let c ← printChar r 0x20 (setCursor r (getCursor r c - 2) c)
  return setCursor r (getCursor r c - 2) c

/-- The loop of `getline`, for the keys that arrive. -/
def getlineLoop (r : Routing) : List Byte → List Byte → Console → Option Line
  | [], res, c => some ⟨res, false, c⟩
  | ch :: keys, res, c => do
    if ch = 0x08 then
      if res = [] then getlineLoop r keys res c
      else getlineLoop r keys res.dropLast (← eraseChar r c)
    else
      let c ← printChar r ch c
      if ch = 0x0D ∨ ch = 0x0A then return ⟨res, true, c⟩
      else getlineLoop r keys (res ++ [ch]) c

/-- `getline`. -/
def getline (r : Routing) (keys : List Byte) (c : Console) : Option Line := getlineLoop r keys [] c

def MAX_BUF_LEN : ℕ := 1000

/-- The key ends the line. -/
def isEnd (ch : Byte) : Bool := ch = 0x0D || ch = 0x0A

/-- What `getline` stores in `res`, which has `MAX_BUF_LEN` bytes, with `l` in it so far: the line and
the keys after it, or `none` while it waits for another one. -/
def lineRead : List Byte → List Byte → Except StdFault (Option (List Byte × List Byte))
  | [], _ => .ok none
  | ch :: keys, l =>
    if ch = 0x08 then lineRead keys l.dropLast
    else if l.length < MAX_BUF_LEN then
      if isEnd ch then .ok (some (l, keys)) else lineRead keys (l ++ [ch])
    else .error .bounds

/-! ## Formatted input -/

/-- What a conversion stores. -/
inductive Stored where
  | char (c : Byte)
  | int (x : Word)
  | str (s : CStr)
  deriving DecidableEq

/-- The variables of `sscanf`, and what has been stored. -/
structure Scan where
  stored : List Stored
  si : ℤ
  offset : ℤ
  /-- `offset` has been used without having been assigned for the conversion; no branch reads this. -/
  stale : Bool

section Scan

variable (s format : CStr)

/-- The branches for the conversion `c`. -/
def scanConvert (c : Byte) (v : Scan) : Except StdFault Scan := do
  if c = 0x63 then
    let x ← charAt s v.si
    return { v with stored := v.stored ++ [.char x], offset := 1 }
  else if c = 0x64 then
    let _ ← charAt s v.si
    let (x, cnt) := readInt (restAt s v.si.toNat)
    return { v with stored := v.stored ++ [.int x], offset := cnt }
  else if c = 0x73 then
    let _ ← charAt s v.si
    let str := (restAt s v.si.toNat).takeWhile fun c => !isspace c
    return { v with stored := v.stored ++ [.str (.ofList str)], si := v.si + str.length, offset := 0 }
  else return { v with stale := true }

/-- The branches for the character `c`. -/
def scanMatch (c : Byte) (v : Scan) : Except StdFault Scan := do
  let x ← charAt s v.si
  if c = 0x20 then
    let spaces := (restAt s v.si.toNat).takeWhile isspace
    return { v with si := v.si + spaces.length }
  else if c = x then return { v with si := v.si + 1 }
  else return v

/-- The loop of `sscanf` and `scanf`, from the index `i` on. -/
def scanLoop : ℕ → ℕ → Scan → Except StdFault Scan
  | 0, _, _ => .error .loops
  | n + 1, i, v => do
    let c ← charAt format i
    if c = 0 then return v
    else if c = 0x25 then
      let v ← scanConvert s (← charAt format (i + 1)) v
      scanLoop n (i + 1 + 1) { v with si := v.si + v.offset }
    else scanLoop n (i + 1) (← scanMatch s c v)

/-- `sscanf`; `junk` is what `offset` holds at first. -/
def sscanf (junk : ℤ) : Except StdFault Scan :=
  scanLoop s format (format.length + 2) 0 ⟨[], 0, junk, false⟩

end Scan

/-- `scanf`: the console, and the result once the line has been read into its array. -/
def scanf (r : Routing) (junk : ℤ) (format : CStr) (keys : List Byte) (c : Console) :
    Option Console × Option (Except StdFault Scan) :=
  ((getline r keys c).map Line.console,
    match lineRead keys [] with
    | .ok none => none
    | .ok (some (l, _)) => some (sscanf (.ofList l) format junk)
    | .error e => some (.error e))

end AdvancedOS.Stdio
