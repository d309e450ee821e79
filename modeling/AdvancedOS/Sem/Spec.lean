import AdvancedOS.Sem.Code
import AdvancedOS.Task.Spec

/-!
# What the functions of `semaphore.h` do
-/

namespace AdvancedOS

variable {k : Kernel} {p : Slot} {s : SemId} {E : Exit → Kernel → Prop}

namespace Kernel

def setVal (s : SemId) (v : ℤ) (k : Kernel) : Kernel := k.setSem s fun x => { x with val := v }

/-- `p` enters the queue of `s`, whose value becomes `v`. -/
def enqueue (p : Slot) (s : SemId) (v : ℤ) (k : Kernel) : Kernel :=
  ((((k.setFlag false).setVal s v).setProc p fun e =>
    { e with next := (k.semList s).head }).setSem s fun x => { x with head := some p }).emit
      (.blocked p s)

/-- The head of the queue of `s` becomes the successor of the current process `p`; the value
becomes `v`. -/
def dequeue (p : Slot) (s : SemId) (v : ℤ) (k : Kernel) : Kernel :=
  ((k.setFlag false).setVal s v).setSem s fun x => { x with head := (k.procList p).next }

def obtainSem (s : SemId) (v : ℤ) (k : Kernel) : Kernel :=
  (k.setSem s fun x => { x with val := v, used := true }).emit (.gotSem s v)

def releaseSem (s : SemId) (k : Kernel) : Kernel :=
  k.setSem s fun x => { x with used := false, head := none }

end Kernel

theorem ends_semAt (id : ℤ) {Q : SemId → Kernel → Prop} :
    Ends (semAt id) k Q E ↔ ((∀ s : SemId, id ≠ s) → E (.fault .bounds) k) ∧
      ∀ s : SemId, id = s → Q s k := by
  by_cases h : 0 ≤ id ∧ id.toNat < N_SEMAPHORE
  · have hs : ∀ s : SemId, id = s ↔ s = ⟨id.toNat, h.2⟩ := by
      intro s
      rw [Fin.ext_iff]
      have := h.1
      constructor <;> intro e <;> simp only at e ⊢ <;> omega
    simp [semAt, h, hs]
  · have hs : ∀ s : SemId, id ≠ s := by
      intro s e
      exact h ⟨by omega, by have := s.isLt; omega⟩
    simp [semAt, h, hs]

theorem ends_cint (x : ℤ) {Q : ℤ → Kernel → Prop} :
    Ends (cint x) k Q E ↔ (¬ IsInt x → E (.fault .overflow) k) ∧ (IsInt x → Q x k) := by
  unfold cint
  split <;> simp [*]

@[simp] theorem ends_sem {Q : Semaphore → Kernel → Prop} :
    Ends (sem s) k Q E ↔ Q (k.semList s) k := by
  simp [sem]

theorem ends_doSemP (id : ℤ) {Q : Unit → Kernel → Prop} (h : k.currProc = some p) :
    Ends (doSemP id) k Q E ↔ ((∀ s : SemId, id ≠ s) → E (.fault .bounds) (k.setFlag false)) ∧
      ∀ s : SemId, id = s → let v := (k.semList s).val - 1
        (¬ IsInt v → E (.fault .overflow) (k.setFlag false)) ∧
        (IsInt v →
          (v < 0 → Ends block (k.enqueue p s v) (fun _ k' => Q () (k'.setFlag true)) E) ∧
          (¬ v < 0 → Q () ((k.setVal s v).setFlag true))) := by
  simp only [doSemP, ends_bind, ends_disable, ends_semAt, ends_cint, ends_sem, ends_setSem,
    ends_ite, ends_enable, ends_setProc, ends_emit]
  refine and_congr_right fun _ => forall₂_congr fun s _ => and_congr_right fun _ => ?_
  have hc : ((k.setFlag false).setVal s ((k.semList s).val - 1)).currProc = some p := h
  rw [Kernel.setVal] at hc
  simp [ends_curr hc, Kernel.enqueue, Kernel.setVal, doWait]
  rfl

theorem ends_doSemV (id : ℤ) {Q : Unit → Kernel → Prop} (h : k.currProc = some p) :
    Ends (doSemV id) k Q E ↔ ((∀ s : SemId, id ≠ s) → E (.fault .bounds) (k.setFlag false)) ∧
      ∀ s : SemId, id = s → let v := (k.semList s).val + 1
        (¬ IsInt v → E (.fault .overflow) (k.setFlag false)) ∧
        (IsInt v →
          (v ≤ 0 →
            ((k.semList s).head = none → E (.fault .null) ((k.setFlag false).setVal s v)) ∧
            ∀ j, (k.semList s).head = some j →
              Ends (wakeup ((k.procList j).pid.setWidth 8)) (k.dequeue p s v)
                (fun _ k' => Q () (k'.setFlag true)) E) ∧
          (¬ v ≤ 0 → Q () ((k.setVal s v).setFlag true))) := by
  simp only [doSemV, ends_bind, ends_disable, ends_semAt, ends_cint, ends_sem, ends_setSem,
    ends_ite, ends_enable, ends_entry, ends_deref]
  refine and_congr_right fun _ => forall₂_congr fun s _ => and_congr_right fun _ => ?_
  have hc : ((k.setFlag false).setVal s ((k.semList s).val + 1)).currProc = some p := h
  rw [Kernel.setVal] at hc
  simp [ends_curr hc, Kernel.dequeue, Kernel.setVal]
  rfl

theorem ends_doGetsem (v : ℤ) {Q : Word → Kernel → Prop} :
    Ends (doGetsem v) k Q E ↔ (unusedSem k.semList = none → Q (-1) k) ∧
      ∀ s, unusedSem k.semList = some s → Q (BitVec.ofNat 32 s) (k.obtainSem s v) := by
  cases hu : unusedSem k.semList <;> simp [doGetsem, hu, Kernel.obtainSem, Kernel.setSem]

theorem ends_doFreesem (id : ℤ) {Q : Unit → Kernel → Prop} :
    Ends (doFreesem id) k Q E ↔ ((∀ s : SemId, id ≠ s) → E (.fault .bounds) k) ∧
      ∀ s : SemId, id = s → Q () (k.releaseSem s) := by
  simp [doFreesem, ends_semAt, Kernel.releaseSem, Kernel.setSem]

end AdvancedOS
