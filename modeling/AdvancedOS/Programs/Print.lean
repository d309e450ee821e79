import AdvancedOS.Programs.Mirrors
import AdvancedOS.Stdio.Agree

/-!
# Printing in a user program

`printf` is ring-3 code: it puts one character after the other on the screen, and an interrupt may
come between any two of them. That it may also come inside `putchar` makes no difference where only
one process prints.

* `text`: the characters of a call of `printf`;
* `Instr.print`: the next character.
-/

namespace AdvancedOS

open Counting Stdio

/-- The characters that `printf` prints. -/
def text (format : String) (args : List Arg) : List Byte :=
  match Stdio.printed (.ofChars format.toList) (argsOf args) with
  | .ok l => l
  | .error _ => []

/-- `k` characters of `l` have been printed. -/
def Instr.print {L V : Type} (l : List Byte) (k : ℕ) (putc : Byte → V → V) (more done : L) :
    Instr L V :=
  match l[k]? with
  | some c => .act fun v => (more, putc c v)
  | none => .act fun v => (done, v)

variable {L V : Type} {l : List Byte} {k : ℕ} {putc : Byte → V → V} {more done : L} {N M p : ℕ}
  {q : Proc L} {a a' : State L V}

theorem does_print (hd : Does N M a p q a' (Instr.print l k putc more done).op) :
    (∃ c, l[k]? = some c ∧ a' = { a.put p (q.to more) with shared := putc c a.shared }) ∨
      l.length ≤ k ∧ a' = a.put p (q.to done) := by
  unfold Instr.print at hd
  cases hk : l[k]? with
  | some c =>
    rw [hk] at hd
    exact .inl ⟨c, rfl, hd⟩
  | none =>
    rw [hk] at hd
    exact .inr ⟨List.getElem?_eq_none_iff.mp hk, hd⟩

theorem proper_print : Proper a p q (Instr.print l k putc more done).op := by
  unfold Instr.print
  cases l[k]? <;> trivial

end AdvancedOS
