import AdvancedOS.Task.Code

/-!
# The functions of `systhread.h`
-/

namespace AdvancedOS

/-- `do_thread_create`. -/
def doThreadCreate (tid func args : Word) : Kern Word := do
  disable
  match ← procAlloc with
  | none =>
    enable
    return -1 -- fail to create child process
  | some child =>
    copyProc child
    -- set function entrance
    setProc child fun p => { p with regImg := { p.regImg with eip := func } }
    let stack := (← entry child).regImg.userEsp - 4
    modify fun k => { k with mem := k.mem.write stack args }
    let stack := stack - 4
    modify fun k => { k with mem := k.mem.write stack k.pthreadReturn }
    setProc child fun p => { p with regImg := { p.regImg with userEsp := stack } }
    -- set return values
    let pid := (← entry child).pid
    modify fun k => { k with mem := k.mem.write tid pid }
    record (.created child (← entry child).regImg)
    return 0

/-- `do_thread_join`; neither parameter is used. -/
def doThreadJoin (_tid _ret : Word) : Kern Unit := block

/-- `do_thread_self`. -/
def doThreadSelf : Kern Word := do return (← entry (← curr)).pid

/-- `do_thread_exit`, up to the call of `user_process_return`. -/
def doThreadExit : Kern Unit := do
  terminate
  throw .processReturn

end AdvancedOS
