import AdvancedOS.Machine.Reach

/-!
# User programs on the machine

A program in ring 3 is given by its code: at each location the next instruction. All processes of a
program share its static data; the registers and the locals of a process are part of its location.
Between any two instructions an interrupt may come and the scheduler may switch.

* `Instr`, `Program`: ring-3 code; an instruction of its own reads and writes the static data, and a
  system call goes on with the value in `eax`;
* `World`: the machine, the location of each process and the static data;
* `World.step`: the current process takes an instruction, or the kernel takes a step; a system call
  is one that the code makes;
* `World.Runs`: what is reached after `exec_user_prg` has started the program on a machine that has
  just been booted.

The file functions write to the data of their caller, which is not described here: a program makes no
call of `int 0x82`. What a process keeps on its stack is part of its location. `do_fork` copies the
stack but not the frame pointers saved on it, so that a child that returns from a function goes on
with the frame of its parent: a program fits if no local variable is used behind a fork.
-/

namespace AdvancedOS

open Function (update)

/-- What ring-3 code does next. -/
inductive Instr (L V : Type) where
  /-- An instruction of its own. -/
  | act (f : V → L × V)
  /-- A system call: `next` is where the caller goes on with the value in `eax`, and `child` is
  where a process starts that the call creates. -/
  | call (c : Call) (next : Word → L) (child : L)

/-- The caller goes on at `l`, whatever the call returns. -/
def Instr.sys {L V : Type} (c : Call) (l : L) : Instr L V := .call c (fun _ => l) l

structure Program (L V : Type) where
  code : L → Instr L V
  /-- The entry point. -/
  start : L
  /-- The static data in the image. -/
  data : V

/-- The machine while it runs a program. -/
structure World (L V : Type) where
  m : Machine
  loc : Slot → L
  data : V

/-- What happens next. -/
inductive Move where
  /-- The current process takes an instruction of its own. -/
  | own
  /-- The kernel takes a step. -/
  | kernel (l : Label)

/-- The value that a handler leaves in `eax`. -/
def eaxOf : EStateM.Result Exit Kernel Word → Word
  | .ok a _ => a
  | .error _ _ => 0

/-- The value that the system call of the label returns. -/
def Machine.result (m : Machine) : Label → Word
  | .int80 t => eaxOf (sysInterruptHandler t.user m.k)
  | .int81 t => eaxOf (sysPthreadHandler t.user m.k)
  | _ => 0

variable {L V : Type}

namespace World

/-- Where the processes are when the call of `p` has brought the machine to `m`: `p` is at `next`,
and an entry that has been allocated is at `child`. -/
def locs (w : World L V) (p : Slot) (next child : L) (m : Machine) : Slot → L := fun i =>
  if (w.m.k.procList i).status = .new ∧ (m.k.procList i).status ≠ .new then child
  else if i = p then next else w.loc i

/-- One step. -/
def step (P : Program L V) (w : World L V) : Move → Option (World L V)
  | .own =>
    match w.m.mode, w.m.k.currProc with
    | .user, some p =>
      match P.code (w.loc p) with
      | .act f => some { w with loc := update w.loc p (f w.data).1, data := (f w.data).2 }
      | .call .. => none
    | _, _ => none
  -- no other program is started
  | .kernel (.create ..) => none
  | .kernel l =>
    match w.m.mode, w.m.k.currProc, w.m.call l with
    | .user, some p, some c =>
      match P.code (w.loc p) with
      | .call c' next child =>
        if c = c' then
          (AdvancedOS.step w.m l).map fun m =>
            { w with m := m, loc := w.locs p (next (w.m.result l)) child m }
        else none
      | .act _ => none
    | _, _, _ => (AdvancedOS.step w.m l).map fun m => { w with m := m }

/-- `exec_user_prg` has created a process for the program and scheduled it. -/
def Starts (P : Program L V) (w : World L V) : Prop :=
  ∃ (processReturn pthreadReturn : Word) (mem : Mem) (addr flag : Word) (m : Machine),
    AdvancedOS.step (boot processReturn pthreadReturn mem) (.create addr flag) = some m ∧
    AdvancedOS.step m .schedule = some w.m ∧ w.loc = (fun _ => P.start) ∧ w.data = P.data

/-- `w` is reached in a run of the program. -/
def Runs (P : Program L V) (w : World L V) : Prop :=
  ∃ w₀, Starts P w₀ ∧ Run.Reach (step P) (fun _ _ => True) w₀ w

variable {P : Program L V} {w w' : World L V} {l : Label}

/-- **Every step is an instruction of the current process, a system call that its code makes, or a
step of the kernel on its own.** -/
inductive Stepped (P : Program L V) (w : World L V) : World L V → Prop
  | own {p : Slot} {f : V → L × V} : w.m.mode = .user → w.m.k.currProc = some p →
    P.code (w.loc p) = .act f →
      Stepped P w { w with loc := update w.loc p (f w.data).1, data := (f w.data).2 }
  | call {p : Slot} {c : Call} {next : Word → L} {child : L} {l : Label} {m : Machine} :
    w.m.mode = .user → w.m.k.currProc = some p → w.m.call l = some c →
    P.code (w.loc p) = .call c next child → AdvancedOS.step w.m l = some m →
      Stepped P w { w with m := m, loc := w.locs p (next (w.m.result l)) child m }
  | other {l : Label} {m : Machine} : (∀ addr flag, l ≠ .create addr flag) →
    (w.m.mode = .user → w.m.k.currProc ≠ none → w.m.call l = none) →
    AdvancedOS.step w.m l = some m → Stepped P w { w with m := m }

theorem step_cases {v : Move} (h : step P w v = some w') : Stepped P w w' := by
  cases v with
  | own =>
    simp only [step] at h
    split at h
    · rename_i p hm hp
      split at h
      · rename_i f hc
        cases h
        exact .own hm hp hc
      · cases h
    · cases h
  | kernel l =>
    have hl : ∀ addr flag, l ≠ .create addr flag := by
      rintro addr flag rfl
      cases h
    simp only [step] at h
    split at h
    · rename_i p c hm hp hc
      split at h
      · rename_i c' next child hcode
        split_ifs at h with he
        obtain ⟨m, hs, rfl⟩ := Option.map_eq_some_iff.mp h
        exact .call hm hp hc (he ▸ hcode) hs
      · cases h
    · rename_i hn
      obtain ⟨m, hs, rfl⟩ := Option.map_eq_some_iff.mp h
      refine .other hl (fun hm hp => ?_) hs
      obtain ⟨p, hp⟩ := Option.ne_none_iff_exists'.mp hp
      cases hc : w.m.call l with
      | none => rfl
      | some c => exact (hn p c hm hp hc).elim

end World

end AdvancedOS
