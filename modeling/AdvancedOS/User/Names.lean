import AdvancedOS.File.Code
import AdvancedOS.Str.Split
import AdvancedOS.User.Load

/-!
# The names that `exec_user_prg` goes over

* `namesOf`: the names in a list, which are between its spaces;
* `programList_names`: these are the names that the loop is given;
* `execUserPrg_eq`: **the loop loads one after the other until this fails, and calls `schedule_proc`
  behind the last one**;
* `tokens_and_names`: tokens in memory, and the names that the loop comes to;
* `not_all_visited`: a name that is not that of a program.
-/

namespace AdvancedOS

variable {junk : ℕ → Junk} {list : Option CStr} {s : Sys} {n : ℕ}

/-! ## The names -/

/-- `" "`. -/
def spaces : CStr := .ofChars [' ']

/-- The names in a list. -/
def namesOf : Option CStr → List CStr
  | none => []
  | some s => (s.toList.splitOnP (isDelim spaces)).map CStr.ofList

theorem isDelim_spaces (c : Byte) : isDelim spaces c = decide (c = 0x20) := by
  have hspaces : spaces.toList = [0x20] := by decide
  rw [isDelim, hspaces]
  exact decide_eq_decide.mpr List.mem_singleton

theorem namesOf_some (s : CStr) : namesOf (some s) = s.before 0x20 :: namesOf (s.after 0x20) := by
  have hbefore : ∀ c ∈ (s.before 0x20).toList, isDelim spaces c = false := by
    intro c hc
    rw [isDelim_spaces]
    refine decide_eq_false fun h => notMem_before s 0x20 ?_
    rw [h] at hc
    exact hc
  cases hx : s.after 0x20 with
  | none =>
    have hs := CStr.before_eq_self hx
    rw [hs] at hbefore
    show (s.toList.splitOnP _).map _ = _
    rw [List.splitOnP_eq_singleton hbefore, List.map_singleton, CStr.ofList_toList, hs]
    rfl
  | some x =>
    have hspace : isDelim spaces 0x20 = true := by
      rw [isDelim_spaces]
      rfl
    show (s.toList.splitOnP _).map _ = _
    rw [← CStr.before_append_after hx,
      List.splitOnP_append_cons_of_forall_mem hbefore _ hspace, List.map_cons, CStr.ofList_toList]
    rfl

theorem execTokens_names (hn : list.elim 0 CStr.length < n) :
    (execTokens junk n list).map Prod.snd = namesOf list := by
  induction n generalizing list with
  | zero => exact absurd hn (Nat.not_lt_zero _)
  | succ n ih =>
    cases list with
    | none => rfl
    | some s =>
      rw [execTokens, List.map_cons, namesOf_some]
      congr 1
      cases hx : s.after 0x20 with
      | none => cases n <;> rfl
      | some x =>
        have hlen := CStr.length_before_add_after hx
        have hs : s.length < n + 1 := hn
        apply ih
        show x.length < n
        omega

theorem programList_names (junk : ℕ → Junk) (list : Option CStr) :
    (programList junk list).map Prod.snd = namesOf list :=
  execTokens_names (Nat.lt_add_of_pos_right Nat.two_pos)

/-! ## The loop -/

/-- The names that the loop of `exec_user_prg` comes to, from the state `s` on. -/
def loopNames (junk : ℕ → Junk) : ℕ → Option CStr → Option CStr → Sys → List CStr
  | 0, _, _, _ => []
  | _ + 1, none, _, _ => []
  | n + 1, some name, rest, s => name ::
    match loadProgram (junk n) name s with
    | .ok true s' => loopNames junk n (strsep 0x20 rest).1 (strsep 0x20 rest).2 s'
    | _ => []

/-- The names that `exec_user_prg` comes to, if its loop starts in the state `s`. -/
def execNames (junk : ℕ → Junk) (nameList : Option CStr) (s : Sys) : List CStr :=
  loopNames junk (nameList.elim 0 CStr.length + 2) (strsep 0x20 nameList).1 (strsep 0x20 nameList).2 s

/-- A program is loaded, with what its variables hold. -/
def loadNext (x : Junk × CStr) : SysKern Bool := loadProgram x.1 x.2

theorem loopNames_eq (n : ℕ) (list : Option CStr) (s : Sys) :
    loopNames junk n (strsep 0x20 list).1 (strsep 0x20 list).2 s =
      (visited loadNext (execTokens junk n list) s).map Prod.snd := by
  induction n generalizing list s with
  | zero => rfl
  | succ n ih =>
    cases list with
    | none => rfl
    | some x =>
      simp only [strsep, loopNames, execTokens, visited, List.map_cons, loadNext]
      congr 1
      generalize loadProgram (junk n) (x.before 0x20) s = r
      cases r with
      | error e s' => rfl
      | ok b s' =>
        cases b with
        | false => rfl
        | true => exact ih _ _

theorem execLoop_eq (hn : (list.elim 0 fun s => s.length + 1) < n) :
    execLoop junk n (strsep 0x20 list).1 (strsep 0x20 list).2 = (do
      let all ← (execTokens junk n list).allM loadNext
      if all then onKernel scheduleProc) := by
  induction n generalizing list with
  | zero => exact absurd hn (Nat.not_lt_zero _)
  | succ n ih =>
    cases list with
    | none => rfl
    | some s =>
      rw [execTokens, List.allM_cons, bind_assoc]
      show (loadProgram (junk n) (s.before 0x20) >>= _) = loadProgram (junk n) (s.before 0x20) >>= _
      congr 1
      funext b
      cases b with
      | false => rfl
      | true =>
        have hs : s.length < n := Nat.lt_of_succ_lt_succ hn
        have hrest : ((s.after 0x20).elim 0 fun s => s.length + 1) < n := by
          cases hx : s.after 0x20 with
          | none => exact Nat.zero_lt_of_lt hs
          | some x =>
            have hlen := CStr.length_before_add_after hx
            show x.length + 1 < n
            omega
        exact ih hrest

theorem execUserPrg_eq (junk : ℕ → Junk) (nameList : Option CStr) : execUserPrg junk nameList = (do
    letIn
    onKernel disable
    let all ← (programList junk nameList).allM loadNext
    if all then onKernel scheduleProc) := by
  have hn : (nameList.elim 0 fun s => s.length + 1) < nameList.elim 0 CStr.length + 2 := by
    cases nameList with
    | none => exact Nat.two_pos
    | some s => exact Nat.lt_succ_self _
  rw [execUserPrg, execLoop_eq hn]
  rfl

/-! ## The result -/

/-- The tokens that the string `l` has been cut into. -/
structure CutInto (delims : CStr) (l : List Byte) (tokens : List Word) (m : Mem) : Prop where
  /-- They are the pieces of the string between its delimiters. -/
  held : List.Forall₂ (StringAt m) tokens (l.splitOnP (isDelim delims))
  count : tokens.length = l.countP (isDelim delims) + 1
  noDelim : ∀ u ∈ l.splitOnP (isDelim delims), ∀ c ∈ u, c ∉ delims.toList
  /-- The tokens with the delimiters between them. -/
  joined : (List.zipWith (· ++ ·) (l.splitOnP (isDelim delims))
    ((l.filter (isDelim delims)).map (fun c => [c]) ++ [[]])).flatten = l

/-- How `exec_user_prg` goes over the names in its argument, if its loop starts in the state `s`. -/
structure GoesOver (junk : ℕ → Junk) (nameList : Option CStr) (s : Sys) : Prop where
  names : (programList junk nameList).map Prod.snd = namesOf nameList
  run : execUserPrg junk nameList = (do
    letIn
    onKernel disable
    let all ← (programList junk nameList).allM loadNext
    if all then onKernel scheduleProc)
  inOrder : execNames junk nameList s <+: namesOf nameList
  /-- A name is come to if all before it have been loaded. -/
  reached : ∀ k < (namesOf nameList).length, k < (execNames junk nameList s).length ↔
    ∃ s', ((programList junk nameList).take k).allM loadNext s = .ok true s'

theorem strsepAll_cutInto {m : Mem} {a : Word} {l : List Byte} (delims : CStr) (h : StringAt m a l)
    (hn : l.length < n) :
    ∃ tokens m', strsepAll delims n (some a) m = some (tokens, m') ∧ CutInto delims l tokens m' := by
  obtain ⟨tokens, m', hall, hheld, -⟩ := strsepAll_splits delims h hn
  refine ⟨tokens, m', hall, hheld, ?_, fun u hu c hc => ?_, List.splitOnP_spec l⟩
  · rw [hheld.length_eq, Pieces.length_splitOnP]
  · exact of_decide_eq_false (Pieces.of_mem_splitOnP hu c hc)

theorem goesOver (junk : ℕ → Junk) (nameList : Option CStr) (s : Sys) :
    GoesOver junk nameList s := by
  have hnames := programList_names junk nameList
  have hvisited : execNames junk nameList s =
      (visited loadNext (programList junk nameList) s).map Prod.snd := loopNames_eq _ _ s
  refine ⟨hnames, execUserPrg_eq junk nameList, ?_, fun k hk => ?_⟩
  · rw [hvisited, ← hnames]
    exact (isPrefix_visited _ _ s).map Prod.snd
  · rw [← hnames, List.length_map] at hk
    rw [hvisited, List.length_map]
    exact lt_length_visited hk

/-- **A string is cut into one token more than it has delimiters, and nothing of it is lost; the loop of
`exec_user_prg` comes to the names between the spaces of its argument, in their order, up to the first
one that is not loaded.** -/
theorem tokens_and_names (m : Mem) (a : Word) (l : List Byte) (delims : CStr) (n : ℕ)
    (h : StringAt m a l) (hn : l.length < n) (junk : ℕ → Junk) (nameList : Option CStr) (s : Sys) :
    (∃ tokens m', strsepAll delims n (some a) m = some (tokens, m') ∧ CutInto delims l tokens m') ∧
      GoesOver junk nameList s :=
  ⟨strsepAll_cutInto delims h hn, goesOver junk nameList s⟩

/-- The state after start-up, on a new disk. -/
def afterBoot : Sys := ⟨(boot 0 0 fun _ => 0).k, formatted.toFileSystem, fun _ => [], []⟩

/-- The bytes of `"a b "` at the address `0x100`. -/
def twoSpaces : Mem := fun x =>
  if x = 0x100 then 0x61 else if x = 0x102 then 0x62 else if x = 0x104 then 0 else 0x20

theorem stringAt_twoSpaces : StringAt twoSpaces 0x100 [0x61, 0x20, 0x62, 0x20] :=
  ⟨rfl, by decide, rfl, by decide, rfl, by decide, rfl, by decide, rfl⟩

theorem tokens_and_names_two :
    (∃ tokens m', strsepAll spaces 5 (some 0x100) twoSpaces = some (tokens, m') ∧
      CutInto spaces [0x61, 0x20, 0x62, 0x20] tokens m') ∧
    GoesOver (fun _ => ⟨0, fun _ => 0, 0⟩) (some (.ofChars "a.com b.out".toList)) afterBoot :=
  tokens_and_names twoSpaces 0x100 _ spaces 5 stringAt_twoSpaces (by decide) _ _ afterBoot

theorem loadProgram_other {name ext : CStr} (j : Junk) (hlen : name.length < 20)
    (hx : name.after 0x2E = some ext) (hcom : ext ≠ comExt) (hout : ext ≠ outExt) (s : Sys) :
    loadProgram j name s = .ok false s := by
  have hread : readProgram j name ext = pure none := by
    rw [readProgram, if_neg hcom, if_neg hout]
  rw [loadProgram, if_pos hlen, strsep, hx]
  show (pure ext >>= fun ext => readProgram j name ext >>= _) s = _
  rw [pure_bind, hread]
  rfl

/-- After a name that is not that of a program no other one is come to. -/
theorem not_all_visited :
    execNames (fun _ => ⟨0, fun _ => 0, 0⟩) (some (.ofChars "a.b prg1.com".toList)) afterBoot ≠
      namesOf (some (.ofChars "a.b prg1.com".toList)) := by
  have hext : (CStr.ofChars "a.b".toList).after 0x2E = some (.ofChars ['b']) := by decide
  have hload := loadProgram_other ⟨0, fun _ => 0, 0⟩ (by decide) hext (by decide) (by decide) afterBoot
  have hfirst : (CStr.ofChars "a.b prg1.com".toList).before 0x20 = .ofChars "a.b".toList := by decide
  have hrest : (CStr.ofChars "a.b prg1.com".toList).after 0x20 = some (.ofChars "prg1.com".toList) := by
    decide
  have hvisited : execNames (fun _ => ⟨0, fun _ => 0, 0⟩) (some (.ofChars "a.b prg1.com".toList))
      afterBoot = [.ofChars "a.b".toList] := by
    rw [execNames, strsep, hfirst]
    simp only [loopNames, hload]
  rw [hvisited, namesOf_some, hrest, namesOf_some]
  intro h
  have hlen := congrArg List.length h
  rw [List.length_cons, List.length_cons] at hlen
  exact absurd hlen (by simp)

end AdvancedOS
