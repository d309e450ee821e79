import AdvancedOS.Programs.Print
import AdvancedOS.Programs.Runs
import Mathlib.Tactic.IntervalCases

/-!
# fruit.c

One process prints what two others put down: a sentence and a fruit. Four semaphores pass the turns
around. The sentence is copied and printed character by character.

* `Fruit.prog`: the program; what is in `fruit_name` before the first round is a parameter;
* `Fruit.Trio`: what the three processes keep;
* `Fruit.supplied`: **whatever the interrupts do, every line on the screen has the whole sentence, the
  fruits come in turn, and there is always somebody who can act.**
-/

namespace AdvancedOS.Fruit

open Counting

/-! ## The program -/

/-- `sem_word`, `sem_fruit`, `sem_word_full` and `sem_fruit_full`. -/
inductive SemVar where
  | word
  | fruit
  | wordFull
  | fruitFull
  deriving DecidableEq

/-- The three loops of `main`. -/
inductive Role where
  | printer
  | speaker
  | server

/-- Where a process is in its loop. -/
inductive Pc where
  /-- The variable is read for `sem_wait` or `sem_signal`. -/
  | fetch (k : SemVar)
  | call (k : SemVar) (s : Word)
  /-- `fruit_plate` is compared with the fruit `f`. -/
  | test (f : ℕ)
  /-- `i` characters of `words` have been printed. -/
  | words (i : ℕ)
  /-- `k` characters of the rest of the line have been printed. -/
  | rest (k : ℕ)
  /-- `fruit_plate = 0`. -/
  | reset
  /-- `put_words` has copied `i` characters. -/
  | copy (i : ℕ)
  /-- `put_fruit`: the remainder. -/
  | bump
  /-- `put_fruit`: the condition. -/
  | skip
  /-- `put_fruit`: `fruit_plate`. -/
  | put

inductive Loc where
  /-- The calls of `get_sem`. -/
  | get (k : SemVar)
  | got (k : SemVar) (s : Word)
  /-- `fruit_plate = fruit_index = 0`. -/
  | init
  | fork
  | forked (pid : Word)
  /-- The second `fork`. -/
  | fork'
  | forked' (pid : Word)
  /-- A loop, with what is in `fruit_name`. -/
  | loop (r : Role) (name : CStr) (pc : Pc)

structure Data where
  sem : SemVar → Word := fun _ => 0
  plate : ℕ := 0
  index : ℕ := 0
  words : ℕ → Byte := fun _ => 0
  /-- What has been printed. -/
  out : List Byte := []

/-- The next character on the screen. -/
def Data.putc (c : Byte) (v : Data) : Data := { v with out := v.out ++ [c] }

/-- `APPLE`, `PEAR` and `BANANA`. -/
def fruitName : ℕ → Option CStr
  | 1 => some (.ofChars "APPLE".toList)
  | 2 => some (.ofChars "PEAR".toList)
  | 3 => some (.ofChars "BANANA".toList)
  | _ => none

def sentence : CStr := .ofChars "Father will live forever!".toList

/-- The character `i` of the sentence, with the `NUL` at its end. -/
def letter (i : ℕ) : Byte := sentence.toList.getD i 0

/-- The rest of a line. -/
def tail (name : CStr) : List Byte := text " %s!\n" [⟨0, name⟩]

/-- The next semaphore of the calls of `get_sem`. -/
def nextGet : SemVar → Loc
  | .word => .get .fruit
  | .fruit => .get .wordFull
  | .wordFull => .get .fruitFull
  | .fruitFull => .init

/-- The processes that call `sem_wait`; the others call `sem_signal`. -/
def waits : Role → SemVar → Bool
  | .printer, .word | .printer, .fruit | .speaker, .wordFull | .server, .fruitFull => true
  | _, _ => false

/-- Where a process goes on after a call. -/
def next : Role → SemVar → Pc
  | .printer, .word => .fetch .fruit
  | .printer, .fruit => .test 1
  | .printer, .wordFull => .reset
  | .printer, .fruitFull => .fetch .word
  | .speaker, .word => .fetch .wordFull
  | .speaker, _ => .copy 0
  | .server, .fruit => .fetch .fruitFull
  | .server, _ => .bump

/-- The bodies of the loops. -/
def body (r : Role) (name : CStr) : Pc → Instr Loc Data
  | .fetch k => .act fun v => (.loop r name (.call k (v.sem k)), v)
  | .call k s =>
    if waits r k then .sys (.semP s.toInt) (.loop r name (next r k))
    else .sys (.semV s.toInt) (.loop r name (next r k))
  | .test f => .act fun v =>
    match fruitName f with
    | some s => if v.plate = f then (.loop r s (.words 0), v) else (.loop r name (.test (f + 1)), v)
    | none => (.loop r name (.words 0), v)
  | .words i => .act fun v =>
    if v.words i = 0 then (.loop r name (.rest 0), v)
    else (.loop r name (.words (i + 1)), v.putc (v.words i))
  | .rest k =>
    .print (tail name) k Data.putc (.loop r name (.rest (k + 1))) (.loop r name (.fetch .wordFull))
  | .reset => .act fun v => (.loop r name (.fetch .fruitFull), { v with plate := 0 })
  | .copy i => .act fun v =>
    (.loop r name (if letter i = 0 then .fetch .word else .copy (i + 1)),
      { v with words := fun j => if j = i then letter i else v.words j })
  | .bump => .act fun v => (.loop r name .skip, { v with index := (v.index + 1) % 4 })
  | .skip => .act fun v =>
    (.loop r name .put, { v with index := if v.index = 0 then v.index + 1 else v.index })
  | .put => .act fun v => (.loop r name (.fetch .fruit), { v with plate := v.index })

/-- `main`, with `junk` in `fruit_name`. -/
def code (junk : CStr) : Loc → Instr Loc Data
  | .get k => .call (.getSem 0) (.got k) .init
  | .got k s => .act fun v =>
    (nextGet k, { v with sem := fun j => if j = k then s else v.sem j })
  | .init => .act fun v => (.fork, { v with plate := 0, index := 0 })
  | .fork => .call .fork .forked (.forked 0)
  | .forked pid => .act fun v =>
    (if pid ≠ 0 then .loop .printer junk (.fetch .word) else .fork', v)
  | .fork' => .call .fork .forked' (.forked' 0)
  | .forked' pid => .act fun v =>
    (if pid ≠ 0 then .loop .speaker junk (.copy 0) else .loop .server junk .bump, v)
  | .loop r name pc => body r name pc

def prog (junk : CStr) : Program Loc Data where
  code := code junk
  start := .get .word
  data := {}

/-! ## The lines -/

/-- The fruit that is put down as the `r`-th one. -/
def fruitNo : ℕ → ℕ
  | 0 => 0
  | r + 1 => r % 3 + 1

/-- The name in the line after `n` lines. -/
def nameAfter (n : ℕ) : CStr :=
  match n % 3 with
  | 0 => .ofChars "APPLE".toList
  | 1 => .ofChars "PEAR".toList
  | _ => .ofChars "BANANA".toList

/-- The line after `n` lines. -/
def lineAfter (n : ℕ) : List Byte := sentence.toList ++ tail (nameAfter n)

/-- `n` lines. -/
def screen (n : ℕ) : List Byte := (List.range n).flatMap lineAfter

theorem screen_succ {n : ℕ} : screen (n + 1) = screen n ++ lineAfter n := by
  simp [screen, List.range_succ]

theorem fruitName_fruitNo (n : ℕ) : fruitName (fruitNo (n + 1)) = some (nameAfter n) := by
  rcases (by omega : n % 3 = 0 ∨ n % 3 = 1 ∨ n % 3 = 2) with h | h | h <;>
    simp [fruitNo, nameAfter, fruitName, h]

theorem fruitNo_succ (r : ℕ) : fruitNo (r + 1) =
    if (fruitNo r + 1) % 4 = 0 then (fruitNo r + 1) % 4 + 1 else (fruitNo r + 1) % 4 := by
  cases r with
  | zero => rfl
  | succ r =>
    rcases (by omega : r % 3 = 0 ∨ r % 3 = 1 ∨ r % 3 = 2) with h | h | h <;>
      simp [fruitNo, Nat.add_mod r 1 3, h]

/-! ## The invariant -/

def SemVar.index : SemVar → ℕ
  | .word => 0
  | .fruit => 1
  | .wordFull => 2
  | .fruitFull => 3

/-- The turn to handle the sentence. -/
def wordHeld : Loc → ℤ
  | .loop .printer _ (.fetch .fruit) | .loop .printer _ (.call .fruit _)
  | .loop .printer _ (.test _) | .loop .printer _ (.words _) | .loop .printer _ (.rest _)
  | .loop .printer _ (.fetch .wordFull) | .loop .printer _ (.call .wordFull _) => 1
  | .loop .speaker _ (.copy _) | .loop .speaker _ (.fetch .word) | .loop .speaker _ (.call .word _) => 1
  | .forked' pid => if pid = 0 then 0 else 1
  | _ => 0

/-- The turn to handle the plate. -/
def fruitHeld : Loc → ℤ
  | .loop .printer _ (.test _) | .loop .printer _ (.words _) | .loop .printer _ (.rest _)
  | .loop .printer _ (.fetch .wordFull) | .loop .printer _ (.call .wordFull _)
  | .loop .printer _ .reset | .loop .printer _ (.fetch .fruitFull)
  | .loop .printer _ (.call .fruitFull _) => 1
  | .loop .server _ .bump | .loop .server _ .skip | .loop .server _ .put
  | .loop .server _ (.fetch .fruit) | .loop .server _ (.call .fruit _) => 1
  | .forked' pid => if pid = 0 then 1 else 0
  | _ => 0

/-- The fruit on the plate has not been printed. -/
def due : Loc → ℤ
  | .loop .printer _ (.test _) | .loop .printer _ (.words _) | .loop .printer _ (.rest _) => 1
  | .loop .server _ (.fetch .fruit) | .loop .server _ (.call .fruit _) => 1
  | _ => 0

/-- What is on the screen of the line that is being printed. -/
def part : Loc → List Byte
  | .loop _ _ (.words i) => sentence.toList.take i
  | .loop _ name (.rest k) => sentence.toList ++ (tail name).take k
  | _ => []

/-- All of the sentence is there. -/
def Full (ws : ℕ → Byte) : Prop := ∀ i ≤ sentence.length, ws i = letter i

/-- Where the first process may be after `n` lines. -/
inductive Printer (n : ℕ) : Loc → Standing → Prop
  | forked {pid : Word} : pid ≠ 0 → Printer n (.forked pid) .active
  | word {s : CStr} : Printer n (.loop .printer s (.fetch .word)) .active
  | callWord {s : CStr} : Printer n (.loop .printer s (.call .word 0)) .active
  | awaitsWord {s : CStr} : Printer n (.loop .printer s (.fetch .fruit)) (.asleep 0)
  | fruit {s : CStr} : Printer n (.loop .printer s (.fetch .fruit)) .active
  | callFruit {s : CStr} : Printer n (.loop .printer s (.call .fruit 1)) .active
  | awaitsFruit {s : CStr} : Printer n (.loop .printer s (.test 1)) (.asleep 1)
  | test {s : CStr} {f : ℕ} : 1 ≤ f → f ≤ fruitNo (n + 1) →
    Printer n (.loop .printer s (.test f)) .active
  | words {i : ℕ} : i ≤ sentence.length → Printer n (.loop .printer (nameAfter n) (.words i)) .active
  | rest {k : ℕ} : Printer n (.loop .printer (nameAfter n) (.rest k)) .active
  | wordFull {s : CStr} : Printer n (.loop .printer s (.fetch .wordFull)) .active
  | callWordFull {s : CStr} : Printer n (.loop .printer s (.call .wordFull 2)) .active
  | reset {s : CStr} : Printer n (.loop .printer s .reset) .active
  | fruitFull {s : CStr} : Printer n (.loop .printer s (.fetch .fruitFull)) .active
  | callFruitFull {s : CStr} : Printer n (.loop .printer s (.call .fruitFull 3)) .active

/-- Where the second process may be, with `ws` in `words`. -/
inductive Speaker (ws : ℕ → Byte) : Loc → Standing → Prop
  | forked' {pid : Word} : pid ≠ 0 → Speaker ws (.forked' pid) .active
  | copy {s : CStr} {i : ℕ} : i ≤ sentence.length → (∀ j < i, ws j = letter j) →
    Speaker ws (.loop .speaker s (.copy i)) .active
  | word {s : CStr} : Full ws → Speaker ws (.loop .speaker s (.fetch .word)) .active
  | callWord {s : CStr} : Full ws → Speaker ws (.loop .speaker s (.call .word 0)) .active
  | wordFull {s : CStr} : Full ws → Speaker ws (.loop .speaker s (.fetch .wordFull)) .active
  | callWordFull {s : CStr} : Full ws → Speaker ws (.loop .speaker s (.call .wordFull 2)) .active
  | awaits {s : CStr} : Full ws → Speaker ws (.loop .speaker s (.copy 0)) (.asleep 2)

/-- Where the third process may be after it has put down `r` fruits, with `f` in
`fruit_index`. -/
inductive Server (f r : ℕ) : Loc → Standing → Prop
  | forked' : f = fruitNo r → Server f r (.forked' 0) .active
  | bump {s : CStr} : f = fruitNo r → Server f r (.loop .server s .bump) .active
  | skip {s : CStr} : f = (fruitNo r + 1) % 4 → Server f r (.loop .server s .skip) .active
  | put {s : CStr} : f = fruitNo (r + 1) → Server f r (.loop .server s .put) .active
  | fruit {s : CStr} : f = fruitNo r → Server f r (.loop .server s (.fetch .fruit)) .active
  | callFruit {s : CStr} : f = fruitNo r → Server f r (.loop .server s (.call .fruit 1)) .active
  | fruitFull {s : CStr} : f = fruitNo r →
    Server f r (.loop .server s (.fetch .fruitFull)) .active
  | callFruitFull {s : CStr} : f = fruitNo r →
    Server f r (.loop .server s (.call .fruitFull 3)) .active
  | awaits {s : CStr} : f = fruitNo r → Server f r (.loop .server s .bump) (.asleep 3)

/-- The units that are left. -/
structure Units where
  word : ℕ := 0
  fruit : ℕ := 0
  wordFull : ℕ := 0
  fruitFull : ℕ := 0

def Units.toList (u : Units) : List ℕ := [u.word, u.fruit, u.wordFull, u.fruitFull]

/-- The turns that nobody has, and the fruits that may be taken. -/
def Units.turns (u : Units) : ℤ × ℤ × ℤ := (u.word + u.wordFull, u.fruit + u.fruitFull, u.fruit)

/-- The turns that a process has, and the fruit that it has not printed. -/
def turns (q : Proc Loc) : ℤ × ℤ × ℤ :=
  (held (fun s => if s = 0 ∨ s = 2 then 1 else 0) wordHeld q,
    held (fun s => if s = 1 ∨ s = 3 then 1 else 0) fruitHeld q,
    held (fun s => if s = 1 then 1 else 0) due q)

/-- The three processes, when `n` lines have been printed and `r` fruits put down. -/
structure Trio (v : Data) (u : Units) (n r : ℕ) (x y z : Proc Loc) : Prop where
  printer : Printer n x.loc x.standing
  speaker : Speaker v.words y.loc y.standing
  server : Server v.index r z.loc z.standing
  turns : u.turns + turns x + turns y + turns z = (1, 1, (r : ℤ) - n)
  plate : r = n + 1 → v.plate = fruitNo r
  out : v.out = screen n ++ part x.loc
  sem : ∀ k, v.sem k = .ofNat 32 k.index

variable {v v' : Data} {u u' : Units} {n r : ℕ} {x y z x' y' z' : Proc Loc} {a a' : State Loc Data}
  {s : CStr}

/-- The three processes, as a state. -/
abbrev trio (v : Data) (u : Units) (x y z : Proc Loc) : State Loc Data := ⟨[x, y, z], u.toList, v⟩

/-! ## Turns -/

theorem Printer.turns {q : Proc Loc} (h : Printer n q.loc q.standing) :
    0 ≤ (turns q).1 ∧ 0 ≤ (turns q).2.2 ∧ (turns q).2.2 ≤ (turns q).2.1 := by
  obtain ⟨l, σ, par⟩ := q
  have h0 : (0 : ℤ) ≤ 0 := le_refl 0
  have h1 : (0 : ℤ) ≤ 1 := Int.one_nonneg
  have h11 : (1 : ℤ) ≤ 1 := le_refl 1
  cases h with
  | forked | word | callWord | awaitsWord => exact ⟨h0, h0, h0⟩
  | fruit | callFruit | awaitsFruit => exact ⟨h1, h0, h0⟩
  | test | words | rest => exact ⟨h1, h1, h11⟩
  | wordFull | callWordFull => exact ⟨h1, h0, h1⟩
  | reset | fruitFull | callFruitFull => exact ⟨h0, h0, h1⟩

theorem Speaker.turns {q : Proc Loc} {ws : ℕ → Byte} (h : Speaker ws q.loc q.standing) :
    turns q = (1, 0, 0) ∧ q.standing = .active ∨ turns q = 0 ∧ Full ws := by
  obtain ⟨l, σ, par⟩ := q
  cases h with
  | forked' hpid =>
    refine .inl ⟨?_, rfl⟩
    simp only [Fruit.turns, held, wordHeld, fruitHeld, due, if_neg hpid]
  | copy | word | callWord => exact .inl ⟨rfl, rfl⟩
  | wordFull h | callWordFull h | awaits h => exact .inr ⟨rfl, h⟩

/-- The second process never has to do with the plate. -/
theorem Speaker.turns_zero {q : Proc Loc} {ws : ℕ → Byte} (h : Speaker ws q.loc q.standing) :
    (Fruit.turns q).2.1 = 0 ∧ (Fruit.turns q).2.2 = 0 := by
  rcases h.turns with ⟨hq, -⟩ | ⟨hq, -⟩ <;> simp [hq]

theorem Server.turns {q : Proc Loc} {f : ℕ} (h : Server f r q.loc q.standing) :
    turns q = (0, 1, 0) ∧ q.standing = .active ∨ turns q = (0, 1, 1) ∧ q.standing = .active ∨
      turns q = 0 := by
  obtain ⟨l, σ, par⟩ := q
  cases h with
  | forked' | bump | skip | put => exact .inl ⟨rfl, rfl⟩
  | fruit | callFruit => exact .inr (.inl ⟨rfl, rfl⟩)
  | fruitFull | callFruitFull | awaits => exact .inr (.inr rfl)

namespace Trio

theorem eqs (h : Trio v u n r x y z) :
    (u.word + u.wordFull : ℤ) + (Fruit.turns x).1 + (Fruit.turns y).1 + (Fruit.turns z).1 = 1 ∧
    (u.fruit + u.fruitFull : ℤ) + (Fruit.turns x).2.1 + (Fruit.turns y).2.1 +
      (Fruit.turns z).2.1 = 1 ∧
    (u.fruit : ℤ) + (Fruit.turns x).2.2 + (Fruit.turns y).2.2 + (Fruit.turns z).2.2 = r - n :=
  ⟨congrArg (·.1) h.turns, congrArg (·.2.1) h.turns, congrArg (·.2.2) h.turns⟩

/-- While the first process has the turn to handle the sentence, all of it is there. -/
theorem full (h : Trio v u n r x y z) (hx : (Fruit.turns x).1 = 1) : Full v.words := by
  have he := h.eqs.1
  rcases h.speaker.turns with ⟨hy, -⟩ | ⟨-, hy⟩
  · rcases h.server.turns with ⟨hz, -⟩ | ⟨hz, -⟩ | hz <;> simp [hx, hy, hz] at he <;> omega
  · exact hy

/-- While the first process has the turn to handle the plate, nobody else has it. -/
theorem alone (h : Trio v u n r x y z) (hx : (Fruit.turns x).2.1 = 1) :
    u.fruit = 0 ∧ u.fruitFull = 0 ∧ Fruit.turns z = 0 := by
  have he := h.eqs.2.1
  have hy := h.speaker.turns_zero.1
  rcases h.server.turns with ⟨hz, -⟩ | ⟨hz, -⟩ | hz
  · simp [hx, hy, hz] at he
    omega
  · simp [hx, hy, hz] at he
    omega
  · simp [hx, hy, hz] at he
    exact ⟨by omega, by omega, hz⟩

theorem alone_eq (h : Trio v u n r x y z) (hx : (Fruit.turns x).2.1 = 1) :
    (Fruit.turns x).2.2 = r - n := by
  obtain ⟨h1, -, hz⟩ := h.alone hx
  have he := h.eqs.2.2
  have hy := h.speaker.turns_zero.2
  rw [h1, hy, hz] at he
  simpa using he

/-! ### Moves -/

theorem shiftX (h : Trio v u n r x y z) (x' : Proc Loc) (hx : Printer n x'.loc x'.standing)
    (ht : u'.turns + Fruit.turns x' = u.turns + Fruit.turns x) (hpart : part x'.loc = part x.loc) :
    Trio v u' n r x' y z :=
  ⟨hx, h.speaker, h.server, by rw [ht, h.turns], h.plate, by rw [hpart, h.out], h.sem⟩

theorem shiftY (h : Trio v u n r x y z) (y' : Proc Loc) (hy : Speaker v.words y'.loc y'.standing)
    (ht : u'.turns + Fruit.turns y' = u.turns + Fruit.turns y) : Trio v u' n r x y' z := by
  refine ⟨h.printer, hy, h.server, ?_, h.plate, h.out, h.sem⟩
  rw [add_right_comm u'.turns, ht, add_right_comm u.turns, h.turns]

theorem shiftZ (h : Trio v u n r x y z) (z' : Proc Loc) (hz : Server v.index r z'.loc z'.standing)
    (ht : u'.turns + Fruit.turns z' = u.turns + Fruit.turns z) : Trio v u' n r x y z' := by
  refine ⟨h.printer, h.speaker, hz, ?_, h.plate, h.out, h.sem⟩
  rw [add_right_comm, add_right_comm u'.turns, ht, add_right_comm u.turns,
    add_right_comm (u.turns + Fruit.turns x), h.turns]

/-- Who may sleep on which semaphore. -/
theorem sleeper (h : Trio v u n r x y z) {i k : ℕ} {q : Proc Loc} (hi : [x, y, z][i]? = some q)
    (hq : q.standing = .asleep k) : (k = 0 ∨ k = 1) ∧ i = 0 ∨ k = 2 ∧ i = 1 ∨ k = 3 ∧ i = 2 := by
  match i, hi with
  | 0, hi =>
    obtain rfl := Option.some.inj hi
    have hx := h.printer
    rw [hq] at hx
    generalize x.loc = l at hx
    cases hx with
    | awaitsWord => exact .inl ⟨.inl rfl, rfl⟩
    | awaitsFruit => exact .inl ⟨.inr rfl, rfl⟩
  | 1, hi =>
    obtain rfl := Option.some.inj hi
    have hy := h.speaker
    rw [hq] at hy
    generalize y.loc = l at hy
    cases hy with
    | awaits => exact .inr (.inl ⟨rfl, rfl⟩)
  | 2, hi =>
    obtain rfl := Option.some.inj hi
    have hz := h.server
    rw [hq] at hz
    generalize z.loc = l at hz
    cases hz with
    | awaits => exact .inr (.inr ⟨rfl, rfl⟩)
  | i + 3, hi => simp at hi

theorem wakeX_word (h : Trio v { u with word := u.word + 1 } n r x y z)
    (hx : x.standing = .asleep 0) : Trio v u n r { x with standing := .active } y z := by
  have hp := h.printer
  obtain ⟨l, σ, par⟩ := x
  cases hx
  cases hp with
  | awaitsWord =>
    refine h.shiftX _ .fruit ?_ rfl
    simp [Units.turns, Fruit.turns, held, wordHeld, fruitHeld, due]
    ring

theorem wakeX_fruit (h : Trio v { u with fruit := u.fruit + 1 } n r x y z)
    (hx : x.standing = .asleep 1) : Trio v u n r { x with standing := .active } y z := by
  have hp := h.printer
  obtain ⟨l, σ, par⟩ := x
  cases hx
  cases hp with
  | awaitsFruit =>
    refine h.shiftX _ (.test (le_refl 1) ?_) ?_ rfl
    · exact Nat.succ_le_succ (Nat.zero_le _)
    · simp [Units.turns, Fruit.turns, held, wordHeld, fruitHeld, due]
      ring

theorem wakeY (h : Trio v { u with wordFull := u.wordFull + 1 } n r x y z)
    (hy : y.standing = .asleep 2) : Trio v u n r x { y with standing := .active } z := by
  have hp := h.speaker
  obtain ⟨l, σ, par⟩ := y
  cases hy
  cases hp with
  | awaits hfull =>
    refine h.shiftY _ (.copy (Nat.zero_le _) nofun) ?_
    simp [Units.turns, Fruit.turns, held, wordHeld, fruitHeld, due]
    ring

theorem wakeZ (h : Trio v { u with fruitFull := u.fruitFull + 1 } n r x y z)
    (hz : z.standing = .asleep 3) : Trio v u n r x y { z with standing := .active } := by
  have hp := h.server
  obtain ⟨l, σ, par⟩ := z
  cases hz
  cases hp with
  | awaits hindex =>
    refine h.shiftZ _ (.bump hindex) ?_
    simp [Units.turns, Fruit.turns, held, wordHeld, fruitHeld, due]
    ring

end Trio

/-! ## Steps -/

/-- Where the three processes are after a step of one of them. -/
def Next (a' : State Loc Data) : Prop := ∃ v u n r x y z, a' = trio v u x y z ∧ Trio v u n r x y z

theorem Next.of (h : Trio v u n r x y z) : Next (trio v u x y z) := ⟨_, _, _, _, _, _, _, rfl, h⟩

variable {junk : CStr}

theorem letter_eq_zero {i : ℕ} (hi : i ≤ sentence.length) : letter i = 0 ↔ i = sentence.length := by
  have hlen : sentence.length = 25 := rfl
  rw [hlen] at hi ⊢
  interval_cases i <;> decide

theorem take_letter {i : ℕ} (hi : i < sentence.length) :
    sentence.toList.take i ++ [letter i] = sentence.toList.take (i + 1) := by
  have hget : sentence.toList[i]? = some (letter i) := by
    rw [letter, List.getD_eq_getElem?_getD, List.getElem?_eq_getElem hi]
    rfl
  rw [List.take_add_one, hget]
  rfl

theorem Trio.stepX (h : Trio v u n r x y z) (hq : x.Awake)
    (hd : Does MAX_PROCESS N_SEMAPHORE (trio v u x y z) 0 x a' ((prog junk).op x.loc)) : Next a' := by
  have hp := h.printer
  obtain ⟨l, σ, par⟩ := x
  cases hp with
  | forked hpid =>
    obtain rfl : a' = _ := hd
    dsimp only
    rw [if_pos hpid]
    exact .of (h.shiftX ⟨_, .active, par⟩ .word rfl rfl)
  | @word s =>
    obtain rfl : a' = _ := hd
    dsimp only
    rw [h.sem]
    exact .of (h.shiftX ⟨_, .active, par⟩ .callWord rfl rfl)
  | @callWord s =>
    have hd : Does _ _ _ _ _ _ (.wait 0 (Loc.loop .printer s (.fetch .fruit))) := hd
    rcases hd with ⟨m, hm, rfl⟩ | ⟨hm, rfl⟩
    · have hm : u.word = m + 1 := Option.some.inj hm
      refine .of (u := { u with word := m }) (h.shiftX ⟨_, .active, par⟩ .fruit ?_ rfl)
      simp [Units.turns, Fruit.turns, held, wordHeld, fruitHeld, due, hm]
      ring
    · refine .of (h.shiftX ⟨_, .asleep 0, par⟩ .awaitsWord ?_ rfl)
      simp [Fruit.turns, held, wordHeld, fruitHeld, due]
  | fruit =>
    obtain rfl : a' = _ := hd
    dsimp only
    rw [h.sem]
    exact .of (h.shiftX ⟨_, .active, par⟩ .callFruit rfl rfl)
  | @callFruit s =>
    have hd : Does _ _ _ _ _ _ (.wait 1 (Loc.loop .printer s (.test 1))) := hd
    rcases hd with ⟨m, hm, rfl⟩ | ⟨hm, rfl⟩
    · have hm : u.fruit = m + 1 := Option.some.inj hm
      refine .of (u := { u with fruit := m }) (h.shiftX ⟨_, .active, par⟩ (.test (le_refl 1) ?_) ?_ rfl)
      · exact Nat.succ_le_succ (Nat.zero_le _)
      · simp [Units.turns, Fruit.turns, held, wordHeld, fruitHeld, due, hm]
        ring
    · refine .of (h.shiftX ⟨_, .asleep 1, par⟩ .awaitsFruit ?_ rfl)
      simp [Fruit.turns, held, wordHeld, fruitHeld, due]
  | @test s f h1 h2 =>
    obtain rfl : a' = _ := hd
    have he : (1 : ℤ) = r - n := h.alone_eq rfl
    have hr : r = n + 1 := by omega
    have hplate : v.plate = fruitNo (n + 1) := hr ▸ h.plate hr
    have hname : fruitName (fruitNo (n + 1)) = some (nameAfter n) := fruitName_fruitNo n
    by_cases hf : f = fruitNo (n + 1)
    · subst hf
      dsimp only
      rw [hname]
      dsimp only
      rw [if_pos hplate]
      exact .of (h.shiftX ⟨_, .active, par⟩ (.words (Nat.zero_le _)) rfl rfl)
    · have hne : v.plate ≠ f := fun hv => hf (hv.symm.trans hplate)
      obtain ⟨c, hc⟩ : ∃ c, fruitName f = some c := by
        have hle : fruitNo (n + 1) ≤ 3 := Nat.succ_le_of_lt (Nat.mod_lt _ (by decide))
        have hf3 : f ≤ 3 := h2.trans hle
        interval_cases f <;> exact ⟨_, rfl⟩
      dsimp only
      rw [hc]
      dsimp only
      rw [if_neg hne]
      exact .of (h.shiftX ⟨_, .active, par⟩
        (.test (Nat.le_succ_of_le h1) (Nat.lt_of_le_of_ne h2 hf)) rfl rfl)
  | @words i hi =>
    obtain rfl : a' = _ := hd
    have hw : v.words i = letter i := h.full rfl i hi
    dsimp only
    rw [hw]
    by_cases hlt : i = sentence.length
    · rw [if_pos ((letter_eq_zero hi).mpr hlt)]
      refine .of ⟨.rest, h.speaker, h.server, h.turns, h.plate, ?_, h.sem⟩
      rw [h.out, hlt]
      rfl
    · rw [if_neg (mt (letter_eq_zero hi).mp hlt)]
      have hlt : i < sentence.length := Nat.lt_of_le_of_ne hi hlt
      refine .of ⟨.words hlt, h.speaker, h.server, h.turns, h.plate, ?_, h.sem⟩
      show v.out ++ [letter i] = screen n ++ sentence.toList.take (i + 1)
      rw [h.out, List.append_assoc, ← take_letter hlt]
      rfl
  | @rest k =>
    rcases does_print hd with ⟨c, hc, rfl⟩ | ⟨hk, rfl⟩
    · refine .of ⟨.rest, h.speaker, h.server, h.turns, h.plate, ?_, h.sem⟩
      show v.out ++ [c] = screen n ++ (sentence.toList ++ (tail (nameAfter n)).take (k + 1))
      rw [h.out, List.take_add_one, hc]
      simp [part]
    · have he : (1 : ℤ) = r - n := h.alone_eq rfl
      refine .of (n := n + 1) ⟨.wordFull, h.speaker, h.server, ?_, fun hr => by omega, ?_, h.sem⟩
      · obtain ⟨h1, h2, h3⟩ := h.eqs
        have h3 : (u.fruit : ℤ) + 1 + (Fruit.turns y).2.2 + (Fruit.turns z).2.2 = r - n := h3
        refine Prod.ext h1 (Prod.ext h2 ?_)
        show (u.fruit : ℤ) + 0 + (Fruit.turns y).2.2 + (Fruit.turns z).2.2 = r - (n + 1 : ℕ)
        omega
      · show v.out = screen (n + 1) ++ []
        rw [h.out, screen_succ, List.append_nil, part, List.take_of_length_le hk]
        rfl
  | wordFull =>
    obtain rfl : a' = _ := hd
    dsimp only
    rw [h.sem]
    exact .of (h.shiftX ⟨_, .active, par⟩ .callWordFull rfl rfl)
  | @callWordFull s =>
    have hd : Does _ _ _ _ _ _ (.signal 2 (Loc.loop .printer s .reset)) := hd
    have hout : Trio v { u with wordFull := u.wordFull + 1 } n r
        ⟨.loop .printer s .reset, .active, par⟩ y z := by
      refine h.shiftX _ .reset ?_ rfl
      simp [Units.turns, Fruit.turns, held, wordHeld, fruitHeld, due]
      ring
    rcases Does.signal (j := 1) hd (fun i q hi hs => by have := h.sleeper hi hs; omega) with
      ⟨q, hq, hs, rfl⟩ | ⟨-, m, hm, rfl⟩
    · obtain rfl : y = q := Option.some.inj hq
      exact .of (hout.wakeY hs)
    · obtain rfl : u.wordFull = m := Option.some.inj hm
      exact .of hout
  | reset =>
    obtain rfl : a' = _ := hd
    have he : (0 : ℤ) = r - n := h.alone_eq rfl
    exact .of ⟨.fruitFull, h.speaker, h.server, h.turns, fun hr => absurd hr (by omega), h.out, h.sem⟩
  | fruitFull =>
    obtain rfl : a' = _ := hd
    dsimp only
    rw [h.sem]
    exact .of (h.shiftX ⟨_, .active, par⟩ .callFruitFull rfl rfl)
  | @callFruitFull s =>
    have hd : Does _ _ _ _ _ _ (.signal 3 (Loc.loop .printer s (.fetch .word))) := hd
    have hout : Trio v { u with fruitFull := u.fruitFull + 1 } n r
        ⟨.loop .printer s (.fetch .word), .active, par⟩ y z := by
      refine h.shiftX _ .word ?_ rfl
      simp [Units.turns, Fruit.turns, held, wordHeld, fruitHeld, due]
      ring
    rcases Does.signal (j := 2) hd (fun i q hi hs => by have := h.sleeper hi hs; omega) with
      ⟨q, hq, hs, rfl⟩ | ⟨-, m, hm, rfl⟩
    · obtain rfl : z = q := Option.some.inj hq
      exact .of (hout.wakeZ hs)
    · obtain rfl : u.fruitFull = m := Option.some.inj hm
      exact .of hout
  | awaitsWord | awaitsFruit => rcases hq with hq | hq <;> cases hq

theorem Trio.stepY (h : Trio v u n r x y z) (hq : y.Awake)
    (hd : Does MAX_PROCESS N_SEMAPHORE (trio v u x y z) 1 y a' ((prog junk).op y.loc)) : Next a' := by
  have hp := h.speaker
  obtain ⟨l, σ, par⟩ := y
  cases hp with
  | forked' hpid =>
    obtain rfl : a' = _ := hd
    dsimp only
    rw [if_pos hpid]
    refine .of (h.shiftY ⟨_, .active, par⟩ (.copy (Nat.zero_le _) nofun) ?_)
    simp only [Fruit.turns, held, wordHeld, fruitHeld, due, if_neg hpid]
  | @copy s i hi hcopied =>
    obtain rfl : a' = _ := hd
    have hcopied' : ∀ j < i + 1, (fun j => if j = i then letter i else v.words j) j = letter j := by
      intro j hj
      by_cases hji : j = i
      · simp [hji]
      · simp only [if_neg hji]
        exact hcopied j (by omega)
    by_cases hlast : letter i = 0
    · dsimp only
      rw [if_pos hlast]
      have hi : i = sentence.length := (letter_eq_zero hi).mp hlast
      exact .of ⟨h.printer, .word fun j hj => hcopied' j (by omega), h.server, h.turns, h.plate, h.out,
        h.sem⟩
    · dsimp only
      rw [if_neg hlast]
      have hi : i < sentence.length := Nat.lt_of_le_of_ne hi (mt (letter_eq_zero hi).mpr hlast)
      exact .of ⟨h.printer, .copy hi hcopied', h.server, h.turns, h.plate, h.out, h.sem⟩
  | word hfull =>
    obtain rfl : a' = _ := hd
    dsimp only
    rw [h.sem]
    exact .of (h.shiftY ⟨_, .active, par⟩ (.callWord hfull) rfl)
  | @callWord s hfull =>
    have hd : Does _ _ _ _ _ _ (.signal 0 (Loc.loop .speaker s (.fetch .wordFull))) := hd
    have hout : Trio v { u with word := u.word + 1 } n r x
        ⟨.loop .speaker s (.fetch .wordFull), .active, par⟩ z := by
      refine h.shiftY _ (.wordFull hfull) ?_
      simp [Units.turns, Fruit.turns, held, wordHeld, fruitHeld, due]
      ring
    rcases Does.signal (j := 0) hd (fun i q hi hs => by have := h.sleeper hi hs; omega) with
      ⟨q, hq, hs, rfl⟩ | ⟨-, m, hm, rfl⟩
    · obtain rfl : x = q := Option.some.inj hq
      exact .of (hout.wakeX_word hs)
    · obtain rfl : u.word = m := Option.some.inj hm
      exact .of hout
  | wordFull hfull =>
    obtain rfl : a' = _ := hd
    dsimp only
    rw [h.sem]
    exact .of (h.shiftY ⟨_, .active, par⟩ (.callWordFull hfull) rfl)
  | @callWordFull s hfull =>
    have hd : Does _ _ _ _ _ _ (.wait 2 (Loc.loop .speaker s (.copy 0))) := hd
    rcases hd with ⟨m, hm, rfl⟩ | ⟨hm, rfl⟩
    · have hm : u.wordFull = m + 1 := Option.some.inj hm
      refine .of (u := { u with wordFull := m })
        (h.shiftY ⟨_, .active, par⟩ (.copy (Nat.zero_le _) nofun) ?_)
      simp [Units.turns, Fruit.turns, held, wordHeld, fruitHeld, due, hm]
      ring
    · refine .of (h.shiftY ⟨_, .asleep 2, par⟩ (.awaits hfull) ?_)
      simp [Fruit.turns, held, wordHeld, fruitHeld, due]
  | awaits => rcases hq with hq | hq <;> cases hq

theorem Trio.stepZ (h : Trio v u n r x y z) (hq : z.Awake)
    (hd : Does MAX_PROCESS N_SEMAPHORE (trio v u x y z) 2 z a' ((prog junk).op z.loc)) : Next a' := by
  have hp := h.server
  obtain ⟨l, σ, par⟩ := z
  cases hp with
  | forked' hf =>
    obtain rfl : a' = _ := hd
    exact .of (h.shiftZ ⟨_, .active, par⟩ (.bump hf) rfl)
  | bump hf =>
    obtain rfl : a' = _ := hd
    refine .of ⟨h.printer, h.speaker, .skip ?_, h.turns, h.plate, h.out, h.sem⟩
    show (v.index + 1) % 4 = _
    rw [hf]
  | skip hf =>
    obtain rfl : a' = _ := hd
    refine .of ⟨h.printer, h.speaker, .put ?_, h.turns, h.plate, h.out, h.sem⟩
    show (if v.index = 0 then v.index + 1 else v.index) = _
    rw [hf, fruitNo_succ]
  | put hf =>
    obtain rfl : a' = _ := hd
    obtain ⟨h1, h2, h3⟩ := h.eqs
    obtain ⟨-, hx0, hx⟩ := h.printer.turns
    obtain ⟨hy1, hy2⟩ := h.speaker.turns_zero
    have h2 : (u.fruit + u.fruitFull : ℤ) + (Fruit.turns x).2.1 + (Fruit.turns y).2.1 + 1 = 1 := h2
    have h3 : (u.fruit : ℤ) + (Fruit.turns x).2.2 + (Fruit.turns y).2.2 + 0 = r - n := h3
    refine .of (r := r + 1) ⟨h.printer, h.speaker, .fruit hf, ?_, fun _ => hf, h.out, h.sem⟩
    refine Prod.ext h1 (Prod.ext h2 ?_)
    show (u.fruit : ℤ) + (Fruit.turns x).2.2 + (Fruit.turns y).2.2 + 1 = (r + 1 : ℕ) - n
    omega
  | fruit hf =>
    obtain rfl : a' = _ := hd
    dsimp only
    rw [h.sem]
    exact .of (h.shiftZ ⟨_, .active, par⟩ (.callFruit hf) rfl)
  | @callFruit s hf =>
    have hd : Does _ _ _ _ _ _ (.signal 1 (Loc.loop .server s (.fetch .fruitFull))) := hd
    have hout : Trio v { u with fruit := u.fruit + 1 } n r x y
        ⟨.loop .server s (.fetch .fruitFull), .active, par⟩ := by
      refine h.shiftZ _ (.fruitFull hf) ?_
      simp [Units.turns, Fruit.turns, held, wordHeld, fruitHeld, due]
      ring
    rcases Does.signal (j := 0) hd (fun i q hi hs => by have := h.sleeper hi hs; omega) with
      ⟨q, hq, hs, rfl⟩ | ⟨-, m, hm, rfl⟩
    · obtain rfl : x = q := Option.some.inj hq
      exact .of (hout.wakeX_fruit hs)
    · obtain rfl : u.fruit = m := Option.some.inj hm
      exact .of hout
  | fruitFull hf =>
    obtain rfl : a' = _ := hd
    dsimp only
    rw [h.sem]
    exact .of (h.shiftZ ⟨_, .active, par⟩ (.callFruitFull hf) rfl)
  | @callFruitFull s hf =>
    have hd : Does _ _ _ _ _ _ (.wait 3 (Loc.loop .server s .bump)) := hd
    rcases hd with ⟨m, hm, rfl⟩ | ⟨hm, rfl⟩
    · have hm : u.fruitFull = m + 1 := Option.some.inj hm
      refine .of (u := { u with fruitFull := m }) (h.shiftZ ⟨_, .active, par⟩ (.bump hf) ?_)
      simp [Units.turns, Fruit.turns, held, wordHeld, fruitHeld, due, hm]
      ring
    · refine .of (h.shiftZ ⟨_, .asleep 3, par⟩ (.awaits hf) ?_)
      simp [Fruit.turns, held, wordHeld, fruitHeld, due]
  | awaits => rcases hq with hq | hq <;> cases hq

/-! ## Order -/

/-- While the second process is not active, the first one has a sentence. -/
theorem Trio.speaker_active (h : Trio v u n r x y z) (hdr : (trio v u x y z).Drained)
    (hx : (Fruit.turns x).1 = 0) (hu : u.word = 0) : y.standing = .active := by
  have he := h.eqs.1
  rcases h.speaker.turns with ⟨-, hact⟩ | ⟨hy, -⟩
  · exact hact
  · have hz : (Fruit.turns z).1 = 0 := by
      rcases h.server.turns with ⟨hz, -⟩ | ⟨hz, -⟩ | hz <;> simp [hz]
    have hfull : u.wordFull ≠ 0 := by
      rintro h0
      simp [hx, hy, hz, hu, h0] at he
    have hsp := h.speaker
    obtain ⟨l, σ, par⟩ := y
    cases hsp with
    | awaits =>
      have h0 : (trio v u x _ z).sems[2]? = some 0 := hdr 1 _ 2 rfl rfl
      exact absurd (Option.some.inj h0) hfull
    | _ => rfl

/-- While the third process is not active, the first one has a fruit. -/
theorem Trio.server_active (h : Trio v u n r x y z) (hdr : (trio v u x y z).Drained)
    (hx : (Fruit.turns x).2.1 = 0) (hu : u.fruit = 0) : z.standing = .active := by
  have he := h.eqs.2.1
  rcases h.server.turns with ⟨-, hact⟩ | ⟨-, hact⟩ | hz
  · exact hact
  · exact hact
  · have hfull : u.fruitFull ≠ 0 := by
      rintro h0
      simp [hx, h.speaker.turns_zero.1, hz, hu, h0] at he
    have hsv := h.server
    obtain ⟨l, σ, par⟩ := z
    cases hsv with
    | awaits =>
      have h0 : (trio v u x y _).sems[3]? = some 0 := hdr 2 _ 3 rfl rfl
      exact absurd (Option.some.inj h0) hfull
    | _ => rfl

/-- When the first process sleeps, another one is active. -/
theorem Trio.live (h : Trio v u n r x y z) (hdr : (trio v u x y z).Drained) :
    x.standing = .active ∨ (y.standing = .active ∧ x.standing = .asleep 0) ∨
      (z.standing = .active ∧ x.standing = .asleep 1) := by
  have hp := h.printer
  obtain ⟨l, σ, par⟩ := x
  cases hp with
  | awaitsWord =>
    have h0 : (trio v u _ y z).sems[0]? = some 0 := hdr 0 _ 0 rfl rfl
    exact .inr (.inl ⟨h.speaker_active hdr rfl (Option.some.inj h0), rfl⟩)
  | awaitsFruit =>
    have h0 : (trio v u _ y z).sems[1]? = some 0 := hdr 0 _ 1 rfl rfl
    exact .inr (.inr ⟨h.server_active hdr rfl (Option.some.inj h0), rfl⟩)
  | _ => exact .inl rfl

theorem Trio.units_le (h : Trio v u n r x y z) :
    u.word ≤ 1 ∧ u.fruit ≤ 1 ∧ u.wordFull ≤ 1 ∧ u.fruitFull ≤ 1 := by
  obtain ⟨h1, h2, -⟩ := h.eqs
  obtain ⟨hx, hx2, hx1⟩ := h.printer.turns
  have hy1 : 0 ≤ (Fruit.turns y).1 := by
    rcases h.speaker.turns with ⟨hy, -⟩ | ⟨hy, -⟩ <;> simp [hy]
  have hy2 := h.speaker.turns_zero.1
  have hz : 0 ≤ (Fruit.turns z).1 ∧ 0 ≤ (Fruit.turns z).2.1 := by
    rcases h.server.turns with ⟨hz, -⟩ | ⟨hz, -⟩ | hz <;> simp [hz]
  omega

theorem Trio.proper_wait {p k : ℕ} {q : Proc Loc} {l : Loc} (hp : [x, y, z][p]? = some q)
    (hq : q.Awake) (hk : k < 4) (hs : ∀ i r, [x, y, z][i]? = some r → r.standing = .asleep k → i = p)
    (hal : (trio v u x y z).sems[k]? = some 0 → ¬ (trio v u x y z).Alone p) :
    Proper (trio v u x y z) p q (.wait k l : Op Loc Data) := by
  refine ⟨hk, fun h0 => ⟨fun i r hi hr => ?_, hal h0⟩⟩
  obtain rfl := hs i r hi hr
  obtain rfl : q = r := Option.some.inj (hp.symm.trans hi)
  exact hq.not_asleep k hr

theorem Trio.orderlyX (h : Trio v u n r x y z) (hdr : (trio v u x y z).Drained) (hq : x.Awake) :
    Proper (trio v u x y z) 0 x ((prog junk).op x.loc) := by
  have hp := h.printer
  obtain ⟨l, σ, par⟩ := x
  cases hp with
  | callWord =>
    refine proper_wait (k := 0) rfl hq (by decide) (fun i r hi hr => ?_) fun h0 hal => ?_
    · have := h.sleeper hi hr
      omega
    · exact hal 1 y (by decide) rfl (h.speaker_active hdr rfl (Option.some.inj h0))
  | callFruit =>
    refine proper_wait (k := 1) rfl hq (by decide) (fun i r hi hr => ?_) fun h0 hal => ?_
    · have := h.sleeper hi hr
      omega
    · exact hal 2 z (by decide) rfl (h.server_active hdr rfl (Option.some.inj h0))
  | callWordFull | callFruitFull => exact show _ < 4 by decide
  | rest => exact proper_print
  | awaitsWord | awaitsFruit => rcases hq with hq | hq <;> cases hq
  | _ => trivial

theorem Trio.orderlyY (h : Trio v u n r x y z) (hdr : (trio v u x y z).Drained) (hq : y.Awake) :
    Proper (trio v u x y z) 1 y ((prog junk).op y.loc) := by
  have hp := h.speaker
  obtain ⟨l, σ, par⟩ := y
  cases hp with
  | callWord => exact show 0 < 4 by decide
  | callWordFull =>
    refine proper_wait (k := 2) rfl hq (by decide) (fun i r hi hr => ?_) fun h0 hal => ?_
    · have := h.sleeper hi hr
      omega
    · rcases h.live hdr with hx | ⟨-, hx⟩ | ⟨hz, -⟩
      · exact hal 0 x (by decide) rfl hx
      · -- the turn to handle the sentence is nowhere
        have h0 : u.wordFull = 0 := Option.some.inj h0
        have hw : (trio v u x _ z).sems[0]? = some 0 := hdr 0 x 0 rfl hx
        have hw : u.word = 0 := Option.some.inj hw
        have he := h.eqs.1
        have hx1 : (Fruit.turns x).1 = 0 := by
          have hx' := h.printer
          obtain ⟨l, σ, par⟩ := x
          cases hx
          cases hx'
          rfl
        have hz1 : (Fruit.turns z).1 = 0 := by
          rcases h.server.turns with ⟨hz, -⟩ | ⟨hz, -⟩ | hz <;> simp [hz]
        rw [h0, hw, hx1, hz1] at he
        cases he
      · exact hal 2 z (by decide) rfl hz
  | awaits => rcases hq with hq | hq <;> cases hq
  | _ => trivial

theorem Trio.orderlyZ (h : Trio v u n r x y z) (hdr : (trio v u x y z).Drained) (hq : z.Awake) :
    Proper (trio v u x y z) 2 z ((prog junk).op z.loc) := by
  have hp := h.server
  obtain ⟨l, σ, par⟩ := z
  cases hp with
  | callFruit => exact show 1 < 4 by decide
  | callFruitFull =>
    refine proper_wait (k := 3) rfl hq (by decide) (fun i r hi hr => ?_) fun h0 hal => ?_
    · have := h.sleeper hi hr
      omega
    · rcases h.live hdr with hx | ⟨hy, -⟩ | ⟨-, hx⟩
      · exact hal 0 x (by decide) rfl hx
      · exact hal 1 y (by decide) rfl hy
      · -- the turn to handle the plate is nowhere
        have h0 : u.fruitFull = 0 := Option.some.inj h0
        have hw : (trio v u x y _).sems[1]? = some 0 := hdr 0 x 1 rfl hx
        have hw : u.fruit = 0 := Option.some.inj hw
        have he := h.eqs.2.1
        have hx1 : (Fruit.turns x).2.1 = 0 := by
          have hx' := h.printer
          obtain ⟨l, σ, par⟩ := x
          cases hx
          cases hx'
          rfl
        rw [h0, hw, hx1, h.speaker.turns_zero.1] at he
        cases he
  | awaits => rcases hq with hq | hq <;> cases hq
  | _ => trivial

/-! ## Two processes -/

/-- The first process and the one that goes on to create the third. -/
structure Duo (v : Data) (x y : Proc Loc) : Prop where
  printer : Printer 0 x.loc x.standing
  turns : Fruit.turns x = 0
  forks : y.loc = .forked 0 ∨ y.loc = .fork'
  active : y.standing = .active
  index : v.index = 0
  out : v.out = []
  sem : ∀ k, v.sem k = .ofNat 32 k.index

/-- The two processes, as a state. -/
abbrev duo (v : Data) (x y : Proc Loc) : State Loc Data := ⟨[x, y], [0, 0, 0, 0], v⟩

theorem Duo.stepX (h : Duo v x y) (hq : x.Awake)
    (hd : Does MAX_PROCESS N_SEMAPHORE (duo v x y) 0 x a' ((prog junk).op x.loc)) :
    ∃ x', a' = duo v x' y ∧ Duo v x' y := by
  obtain ⟨hp, ht, hy, hact, hi, ho, hs⟩ := h
  obtain ⟨l, σ, par⟩ := x
  cases hp with
  | forked hpid =>
    obtain rfl : a' = _ := hd
    dsimp only
    rw [if_pos hpid]
    exact ⟨⟨_, .active, par⟩, rfl, .word, rfl, hy, hact, hi, ho, hs⟩
  | word =>
    obtain rfl : a' = _ := hd
    dsimp only
    rw [hs]
    exact ⟨⟨_, .active, par⟩, rfl, .callWord, rfl, hy, hact, hi, ho, hs⟩
  | @callWord s =>
    have hd : Does _ _ _ _ _ _ (.wait 0 (Loc.loop .printer s (.fetch .fruit))) := hd
    rcases hd with ⟨m, hm, -⟩ | ⟨-, rfl⟩
    · cases hm
    · exact ⟨⟨_, .asleep 0, par⟩, rfl, .awaitsWord, rfl, hy, hact, hi, ho, hs⟩
  | awaitsWord => rcases hq with hq | hq <;> cases hq
  | _ => cases ht

theorem Duo.stepY (h : Duo v x y)
    (hd : Does MAX_PROCESS N_SEMAPHORE (duo v x y) 1 y a' ((prog junk).op y.loc)) :
    (∃ y', a' = duo v x y' ∧ Duo v x y') ∨ Next a' := by
  obtain ⟨hp, ht, hy, hact, hi, ho, hs⟩ := h
  obtain ⟨l, σ, par⟩ := y
  obtain rfl : σ = .active := hact
  rcases hy with hy | hy <;> obtain rfl : l = _ := hy
  · obtain rfl : a' = _ := hd
    exact .inl ⟨_, rfl, hp, ht, .inr rfl, rfl, hi, ho, hs⟩
  · rcases hd with ⟨-, l, ⟨pid, hpid, -, rfl⟩, rfl⟩ | ⟨hfull, -⟩
    · -- the sentence and the plate have each their own process
      refine .inr (.of (u := {}) (n := 0) (r := 0) (y := ⟨.forked' pid, .active, par⟩)
        (z := { loc := .forked' 0, parent := some 1 })
        ⟨hp, .forked' hpid, .forked' hi, ?_, nofun, ?_, hs⟩)
      · rw [ht]
        simp only [Units.turns, Fruit.turns, held, wordHeld, fruitHeld, due, if_neg hpid]
        rfl
      · refine ho.trans ?_
        obtain ⟨l, σ, par⟩ := x
        cases hp <;> first | rfl | cases ht
    · exact absurd (show MAX_PROCESS ≤ 2 from hfull) (by decide)

theorem Duo.orderlyX (h : Duo v x y) (hq : x.Awake) :
    Proper (duo v x y) 0 x ((prog junk).op x.loc) := by
  obtain ⟨hp, ht, -, hact, -⟩ := h
  obtain ⟨l, σ, par⟩ := x
  cases hp with
  | callWord =>
    refine ⟨Nat.succ_pos 3, fun _ => ⟨fun i r hi hr => ?_, fun hal => hal 1 y Nat.one_ne_zero rfl hact⟩⟩
    match i, hi with
    | 0, hi =>
      obtain rfl := Option.some.inj hi
      cases hr
    | 1, hi =>
      obtain rfl := Option.some.inj hi
      cases hact.symm.trans hr
    | i + 2, hi => simp at hi
  | forked | word => trivial
  | awaitsWord => rcases hq with hq | hq <;> cases hq
  | _ => cases ht

/-! ## Runs -/

/-- The semaphores before `k` have been created. -/
structure Early (k : ℕ) (v : Data) : Prop where
  sem : ∀ j : SemVar, j.index < k → v.sem j = .ofNat 32 j.index
  out : v.out = []

theorem Early.next {k : SemVar} (h : Early k.index v) :
    Early (k.index + 1) { v with sem := fun j => if j = k then .ofNat 32 k.index else v.sem j } := by
  refine ⟨fun j hj => ?_, h.out⟩
  by_cases hjk : j = k
  · subst hjk
    exact if_pos rfl
  · have hne : j.index ≠ k.index := by
      cases j <;> cases k <;> simp_all [SemVar.index]
    exact (if_neg hjk).trans (h.sem j (by omega))

/-- What a run of the program keeps. -/
inductive Inv : State Loc Data → Prop
  | get {k : SemVar} {v : Data} : Early k.index v →
    Inv ⟨[{ loc := .get k }], List.replicate k.index 0, v⟩
  | got {k : SemVar} {v : Data} : Early k.index v →
    Inv ⟨[{ loc := .got k (.ofNat 32 k.index) }], List.replicate (k.index + 1) 0, v⟩
  | init {v : Data} : Early 4 v → Inv ⟨[{ loc := .init }], List.replicate 4 0, v⟩
  | fork {v : Data} : Early 4 v → v.index = 0 → Inv ⟨[{ loc := .fork }], List.replicate 4 0, v⟩
  | duo {v : Data} {x y : Proc Loc} : Duo v x y → Inv (duo v x y)
  | trio {v : Data} {u : Units} {n r : ℕ} {x y z : Proc Loc} : Trio v u n r x y z →
    Inv (trio v u x y z)

theorem Next.inv (h : Next a') : Inv a' := by
  obtain ⟨v, u, n, r, x, y, z, rfl, h⟩ := h
  exact .trio h

theorem Inv.step {p : ℕ} {q : Proc Loc} (h : Inv a) (hp : a.procs[p]? = some q) (hq : q.Awake)
    (hd : Does MAX_PROCESS N_SEMAPHORE a p q a' ((prog junk).op q.loc)) : Inv a' := by
  have hone : ∀ {l : Loc}, ([{ loc := l }] : List (Proc Loc))[p]? = some q →
      p = 0 ∧ q = { loc := l } := by
    intro l hl
    cases p with
    | zero => exact ⟨rfl, (Option.some.inj hl).symm⟩
    | succ p => simp at hl
  cases h with
  | @get k v h =>
    obtain ⟨rfl, rfl⟩ := hone hp
    rcases hd with ⟨-, rfl⟩ | ⟨hfull, -⟩
    · have hinv := Inv.got h
      cases k <;> exact hinv
    · rw [List.length_replicate] at hfull
      exact absurd hfull (by cases k <;> decide)
  | @got k v h =>
    obtain ⟨rfl, rfl⟩ := hone hp
    obtain rfl : a' = _ := hd
    have hnext := h.next
    cases k with
    | word | fruit | wordFull => exact .get hnext
    | fruitFull => exact .init hnext
  | init h =>
    obtain ⟨rfl, rfl⟩ := hone hp
    obtain rfl : a' = _ := hd
    exact .fork ⟨h.sem, h.out⟩ rfl
  | fork h hi =>
    obtain ⟨rfl, rfl⟩ := hone hp
    rcases hd with ⟨-, l, ⟨pid, hpid, -, rfl⟩, rfl⟩ | ⟨hfull, -⟩
    · exact @Inv.duo _ { loc := .forked pid } { loc := .forked 0, parent := some 0 }
        ⟨.forked hpid, rfl, .inl rfl, rfl, hi, h.out, fun k => h.sem k (by cases k <;> decide)⟩
    · exact absurd (show MAX_PROCESS ≤ 1 from hfull) (by decide)
  | duo h =>
    match p, hp with
    | 0, hp =>
      obtain rfl := Option.some.inj hp
      obtain ⟨x', rfl, h⟩ := h.stepX hq hd
      exact .duo h
    | 1, hp =>
      obtain rfl := Option.some.inj hp
      rcases h.stepY hd with ⟨y', rfl, h⟩ | h
      · exact .duo h
      · exact h.inv
    | p + 2, hp => simp at hp
  | trio h =>
    match p, hp with
    | 0, hp =>
      obtain rfl := Option.some.inj hp
      exact (h.stepX hq hd).inv
    | 1, hp =>
      obtain rfl := Option.some.inj hp
      exact (h.stepY hq hd).inv
    | 2, hp =>
      obtain rfl := Option.some.inj hp
      exact (h.stepZ hq hd).inv
    | p + 3, hp => simp at hp

theorem Inv.orderly (hdr : a.Drained) (h : Inv a) : Orderly (prog junk).op a := by
  intro p q hp hq
  have hone : ∀ {l : Loc}, ([{ loc := l }] : List (Proc Loc))[p]? = some q → q.loc = l := by
    intro l hl
    cases p with
    | zero => rw [← Option.some.inj hl]
    | succ p => simp at hl
  cases h with
  | get | got | init | fork => rw [hone hp]; trivial
  | @duo v x y h =>
    match p, hp with
    | 0, hp =>
      obtain rfl := Option.some.inj hp
      exact h.orderlyX hq
    | 1, hp =>
      obtain rfl := Option.some.inj hp
      rcases h.forks with hy | hy <;> rw [hy] <;> trivial
    | p + 2, hp => simp at hp
  | trio h =>
    match p, hp with
    | 0, hp =>
      obtain rfl := Option.some.inj hp
      exact h.orderlyX hdr hq
    | 1, hp =>
      obtain rfl := Option.some.inj hp
      exact h.orderlyY hdr hq
    | 2, hp =>
      obtain rfl := Option.some.inj hp
      exact h.orderlyZ hdr hq
    | p + 3, hp => simp at hp

theorem Inv.live (hdr : a.Drained) (h : Inv a) :
    ∃ (i : ℕ) (q : Proc Loc), a.procs[i]? = some q ∧ q.standing = .active := by
  cases h with
  | get | got | init | fork => exact ⟨0, _, rfl, rfl⟩
  | duo h => exact ⟨1, _, rfl, h.active⟩
  | trio h =>
    rcases h.live hdr with hx | ⟨hy, -⟩ | ⟨hz, -⟩
    · exact ⟨0, _, rfl, hx⟩
    · exact ⟨1, _, rfl, hy⟩
    · exact ⟨2, _, rfl, hz⟩

theorem Printer.part {l : Loc} {σ : Standing} (h : Printer n l σ) :
    ∃ k, part l = (lineAfter n).take k := by
  cases h with
  | @words i hi => exact ⟨i, (List.take_append_of_le_length hi).symm⟩
  | @rest k => exact ⟨sentence.length + k, (List.take_length_add_append _).symm⟩
  | _ => exact ⟨0, rfl⟩

theorem Inv.lines (h : Inv a) : ∃ n k, a.shared.out = screen n ++ (lineAfter n).take k := by
  cases h with
  | get h | got h | init h | fork h => exact ⟨0, 0, h.out⟩
  | duo h => exact ⟨0, 0, h.out⟩
  | @trio v u n r x y z h =>
    obtain ⟨k, hk⟩ := h.printer.part
    exact ⟨n, k, hk ▸ h.out⟩

theorem Inv.units_le (h : Inv a) : ∀ m ∈ a.sems, m ≤ 1 := by
  cases h with
  | get | got | init | fork =>
    intro m hm
    rw [(List.mem_replicate.mp hm).2]
    exact Nat.zero_le 1
  | duo => simp
  | trio h =>
    obtain ⟨h1, h2, h3, h4⟩ := h.units_le
    simp [Units.toList, h1, h2, h3, h4]

/-! ## The program -/

/-- What is right about a world in which the program runs. -/
structure Right (w : World Loc Data) : Prop where
  noFault : ∀ f, w.m.mode ≠ .fault f
  live : ∃ i, (w.m.k.procList i).status = .ready ∨ (w.m.k.procList i).status = .running
  /-- There are whole lines on the screen, in their order, and the beginning of the next one. -/
  lines : ∃ n k, w.data.out = screen n ++ (lineAfter n).take k

/-- **Every line has the whole sentence and the fruits come in turn, and somebody can always act.** -/
theorem supplied {w : World Loc Data} (hw : w.Runs (prog junk)) : Right w := by
  obtain ⟨a, hdr, ha, hd, hm⟩ := World.invariant (I := Inv)
    (.get (k := .word) ⟨fun j hj => absurd hj (Nat.not_lt_zero _), rfl⟩)
    (fun a p q a' _ h hp hq hd => h.step hp hq hd) (fun a hdr h => h.orderly hdr) hw
  have hm : w.Mirror a := hm.resolve_right fun ⟨_, hmax⟩ => absurd (ha.units_le _ hmax) (by decide)
  refine ⟨hm.view.sound, ?_, hd ▸ ha.lines⟩
  obtain ⟨i, q, hq, hact⟩ := ha.live hdr
  exact hm.runnable hq hact

/-- The first line is printed. -/
theorem supplied_line : ∃ w : World Loc Data, w.Runs (prog (.ofChars [])) ∧ Right w ∧
    w.data.out = screen 1 := by
  obtain ⟨w, hw, h⟩ := World.Runs.of_exec (P := prog (.ofChars []))
    (Q := fun w => w.data.out = screen 1)
    ((List.replicate 4 [.kernel (.sys 20), .own]).flatten ++ [.own, .kernel (.sys 10), .own, .own,
      .kernel (.sys 21), .own, .kernel (.sys 10)] ++ List.replicate 28 .own ++
      [.kernel (.sys 22)] ++ List.replicate 5 .own ++ [.kernel (.sys 22 1), .kernel .ret, .own,
      .kernel (.sys 21 3), .own, .kernel (.sys 21 1), .kernel .ret] ++ List.replicate 37 .own)
    (by decide +kernel)
  exact ⟨w, hw, supplied hw, h⟩

end AdvancedOS.Fruit
