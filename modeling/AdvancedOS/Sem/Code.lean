import AdvancedOS.Task.Code

/-!
# The functions of `semaphore.h`
-/

namespace AdvancedOS

/-- `sem_list[sem_id]`, about to be accessed. -/
def semAt (semId : ℤ) : Kern SemId :=
  if h : 0 ≤ semId ∧ semId.toNat < N_SEMAPHORE then pure ⟨semId.toNat, h.2⟩
  else throw (.fault .bounds)

/-- The semaphore `s`. -/
def sem (s : SemId) : Kern Semaphore := return (← get).semList s

/-- `do_sem_p`. -/
def doSemP (semId : ℤ) : Kern Unit := do
  disable
  let s ← semAt semId
  let v ← cint ((← sem s).val - 1)
  setSem s fun x => { x with val := v }
  if v < 0 then
    let c ← curr
    let head := (← sem s).head
    setProc c fun p => { p with next := head }
    setSem s fun x => { x with head := some c }
    emit (.blocked c s)
    doWait
  enable

/-- `do_sem_v`. -/
def doSemV (semId : ℤ) : Kern Unit := do
  disable
  let s ← semAt semId
  let v ← cint ((← sem s).val + 1)
  setSem s fun x => { x with val := v }
  if v ≤ 0 then
    let h ← deref (← sem s).head
    let pid := (← entry h).pid
    let next := (← entry (← curr)).next
    setSem s fun x => { x with head := next }
    wakeup (pid.setWidth 8)
  enable

/-- The index that the loop of `do_getsem` stops at. -/
def unusedSem (t : SemId → Semaphore) : Option SemId :=
  (List.finRange N_SEMAPHORE).find? fun i => ¬ (t i).used

/-- `do_getsem`. -/
def doGetsem (val : ℤ) : Kern Word := do
  match unusedSem (← get).semList with
  | some i =>
    setSem i fun x => { x with val := val }
    setSem i fun x => { x with used := true }
    emit (.gotSem i val)
    return BitVec.ofNat 32 i
  | none => return -1

/-- `do_freesem`. -/
def doFreesem (semId : ℤ) : Kern Unit := do
  let s ← semAt semId
  setSem s fun x => { x with used := false }
  setSem s fun x => { x with head := none }

end AdvancedOS
