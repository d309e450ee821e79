import AdvancedOS.Machine.Reach
import AdvancedOS.User.Load

/-!
# Runs of `exec`

The machine with the commands `exec`: besides its own steps there is one for every name of a list,
the body of the loop of `exec_user_prg`. The call of `schedule_proc` after the list is a step of the
machine. What the kernel keeps in its own memory, on its stack for one, is not followed: loading a
program leaves there what it likes.

* `Loader`, `Act`, `act`: the states, what happens next, and the step;
* `Sys.stirred`: the memory of the kernel after a step;
* `act_wf`: **every step keeps the scheduling view well formed**, so in the shell no process is
  current (`Loader.currProc`).
-/

namespace AdvancedOS

/-- The mode of the processor, and everything that `exec_user_prg` works on. -/
structure Loader where
  mode : Mode
  sys : Sys

/-- What happens next. -/
inductive Act where
  | machine (l : Label)
  /-- A program is loaded, while interrupts arrive, and `left` is what is in the memory of the kernel
  afterwards. -/
  | exec (junk : Junk) (name : CStr) (arrivals : ℕ → List Trap) (left : Mem)

/-- The kernel has stored in its own memory. -/
def Sys.stirred (foot : Footprint) (left : Mem) (s : Sys) : Sys :=
  s.setKernel { s.k with mem := fun x => if foot.owns x then left x else s.k.mem x }

namespace Loader

/-- The machine without the file system. -/
def machine (x : Loader) : Machine := ⟨x.mode, x.sys.k⟩

/-- Where loading a program ends; after a fault or in an endless loop the shell does not go on. -/
def after : EStateM.Result Stop Sys Bool → Loader
  | .ok _ s => ⟨.shell, s⟩
  | .error (.exit e) s => ⟨(leave e s.k).mode, s.setKernel (leave e s.k).k⟩
  | .error (.halt _) s => ⟨.lost, s⟩

/-- The same after the kernel has stored in its own memory. -/
def stirred (foot : Footprint) (left : Mem) (x : Loader) : Loader := ⟨x.mode, x.sys.stirred foot left⟩

/-- When `terminal_loop` starts. -/
def start (processReturn pthreadReturn : Word) (mem : Mem) (fs : FileSystem) : Loader :=
  ⟨.shell, ⟨(boot processReturn pthreadReturn mem).k, fs, fun _ => [], []⟩⟩

end Loader

/-- One step. -/
def act (foot : Footprint) : Loader → Act → Option Loader
  | ⟨m, s⟩, .machine l => (step ⟨m, s.k⟩ l).map fun y => ⟨y.mode, s.setKernel y.k⟩
  | ⟨.shell, s⟩, .exec junk name arrivals left =>
    some ((Loader.after (loadProgram junk name (s.withArrivals arrivals))).stirred foot left)
  | _, .exec .. => none

variable {foot : Footprint} {left : Mem}

theorem act_machine {x y : Loader} {l : Label} : act foot x (.machine l) = some y ↔
    ∃ m, step x.machine l = some m ∧ y = ⟨m.mode, x.sys.setKernel m.k⟩ := by
  obtain ⟨m, s⟩ := x
  rw [act, Option.map_eq_some_iff]
  exact exists_congr fun m => and_congr_right fun _ => eq_comm

theorem act_exec {x y : Loader} {junk : Junk} {name : CStr} {a : ℕ → List Trap} :
    act foot x (.exec junk name a left) = some y ↔ x.mode = .shell ∧
      y = (Loader.after (loadProgram junk name (x.sys.withArrivals a))).stirred foot left := by
  obtain ⟨m, s⟩ := x
  cases m with
  | shell => exact ⟨fun h => ⟨rfl, (Option.some.inj h).symm⟩, fun h => congrArg some h.2.symm⟩
  | user | tail | lost | fault =>
    refine iff_of_false (fun h => ?_) fun h => ?_
    · cases h
    · cases h.1

/-! ## Well-formedness -/

/-- Called in a well-formed state of the shell, the code leaves one. -/
abbrev KeepsWf {α : Type} (x : SysKern α) : Prop :=
  Preserves (fun s => (⟨.shell, s.k⟩ : Machine).view.Wf)
    (fun e s => (Loader.after (.error e s)).machine.view.Wf) x

section

variable {n i : ℕ} {c : Word} {dst : Option Word} {junk : Junk} {name ext : CStr}

theorem keepsWf_onFs {α : Type} (x : FsKern α) : KeepsWf (onFs x) := fun _ h =>
  (ends_onFs x).mpr (.of_forall (fun _ _ => h) fun _ _ => ⟨h.s, trivial⟩)

theorem keepsWf_onKernel {α : Type} {x : Kern α} (hx : ∀ k : Kernel,
    (⟨.shell, k⟩ : Machine).view.Wf → (shellResult (x k)).view.Wf) : KeepsWf (onKernel x) := by
  intro s h
  rw [ends_onKernel]
  exact (ends_result x fun r => (shellResult r).view.Wf).mpr (hx s.k h)

theorem keepsWf_timer (t : Trap) : KeepsWf (timer t) := by
  refine keepsWf_onKernel fun k h => ?_
  have hpit : (resume .shell (pitHandler t.kernel k)).view.Wf :=
    pitHandler_seeks (P := View.Wf) t.kernel .shell h.s h fun y hy => hy.wf h.s h.fits
  rw [← ends_result (pitHandler t.kernel) fun r => (resume .shell r).view.Wf] at hpit
  rw [← ends_result _ fun r => (shellResult r).view.Wf, ends_bind]
  simp only [ends_enable]
  exact hpit

theorem keepsWf_letIn : KeepsWf letIn :=
  .bind .get fun _ => .bind (.modify fun _ h => h) fun _ => .ite (.forM keepsWf_timer _) (.pure _)

theorem keepsWf_storeSector (l : List Sector) : KeepsWf (storeSector dst i l) := by
  cases dst with
  | some a => exact keepsWf_onFs _
  | none => exact .ite (.pure _) (keepsWf_onFs _)

theorem keepsWf_loadClustersLoop : KeepsWf (loadClustersLoop dst n i c) := by
  induction n generalizing i c with
  | zero => exact .throw fun _ h => ⟨h.s, trivial⟩
  | succ n ih =>
    exact .bind (keepsWf_onFs _) fun l => .bind (keepsWf_storeSector l) fun _ =>
      .bind (keepsWf_onFs _) fun _ => .bind keepsWf_letIn fun _ => .bind (keepsWf_onFs _) fun _ =>
        .ite (.bind ih fun _ => .pure _) (.pure _)

theorem keepsWf_loadFile : KeepsWf (loadFile dst name) := by
  refine .bind .get fun s => ?_
  cases findRoot s.fs.rootDir name with
  | none => exact .pure _
  | some j => exact .bind keepsWf_loadClustersLoop fun _ => .pure _

theorem keepsWf_readProgram : KeepsWf (readProgram junk name ext) := by
  refine .ite (.bind keepsWf_loadFile fun o => ?_) (.ite (.bind keepsWf_loadFile fun o => ?_)
    (.pure _))
  · cases o <;> exact .pure _
  · cases o with
    | none => exact .pure _
    | some l => exact .bind (keepsWf_onFs _) fun _ => .bind keepsWf_letIn fun _ => .pure _

theorem keepsWf_procCreate (addr flag : Word) :
    KeepsWf (onKernel (procCreate USER_CS USER_DS addr flag)) := by
  refine keepsWf_onKernel fun k h => ?_
  have he : step ⟨.shell, k⟩ (.create addr flag) =
    some (shellResult (procCreate USER_CS USER_DS addr flag k)) := rfl
  exact (step_moves h he).wf h

theorem keepsWf_loadProgram : KeepsWf (loadProgram junk name) := by
  refine .ite (.bind (keepsWf_onFs _) fun ext => .bind keepsWf_readProgram fun o => ?_)
    (keepsWf_onFs _)
  cases o with
  | none => exact .pure _
  | some r =>
    exact .bind (keepsWf_procCreate _ _) fun pp => .bind (.modify fun _ h => h) fun _ => .pure _

end

theorem act_wf {x y : Loader} {a : Act} (hx : x.machine.view.Wf) (h : act foot x a = some y) :
    y.machine.view.Wf := by
  cases a with
  | machine l =>
    obtain ⟨m, hm, rfl⟩ := act_machine.mp h
    exact (step_moves hx hm).wf hx
  | exec junk name arrivals left =>
    obtain ⟨hshell, rfl⟩ := act_exec.mp h
    have hs : (⟨.shell, x.sys.k⟩ : Machine).view.Wf := by
      rw [← hshell]
      exact hx
    exact (ends_result _ fun r => (Loader.after r).machine.view.Wf).mp
      (keepsWf_loadProgram (x.sys.withArrivals arrivals) hs)

namespace Loader

variable {G : Loader → Act → Prop} {pr ptr : Word} {mem : Mem} {fs : FileSystem} {x : Loader}

theorem start_wf (pr ptr : Word) (mem : Mem) (fs : FileSystem) :
    (start pr ptr mem fs).machine.view.Wf :=
  RunsTo.wf (G := fun _ _ => True) (m := boot pr ptr mem) ⟨pr, ptr, mem, .init⟩

theorem wf (h : Run.Reach (act foot) G (start pr ptr mem fs) x) : x.machine.view.Wf :=
  h.invariant (I := fun x => x.machine.view.Wf) (start_wf pr ptr mem fs)
    fun _ _ _ hx _ he => act_wf hx he

theorem currProc (h : x.machine.view.Wf) (hm : x.mode = .shell) : x.sys.k.currProc = none := by
  have hfits := h.fits
  rwa [show x.machine.view.mode = .shell from hm] at hfits

end Loader

end AdvancedOS
