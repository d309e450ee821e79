import AdvancedOS.Shell.Safe
import AdvancedOS.Stdio.Format
import AdvancedOS.User.Segments
import AdvancedOS.User.Store

/-!
# Lists of programs that go through

* `Tells`: the code is safe exactly under a condition, unless an interrupt leaves for a process;
* `ReadSafe`, `Taken`, `Granted`: the programs that can be read, and those that get a process;
* `HasRead`, `StopsReading`: how reading a program ends;
* `TokensSafe`: every name that the loop comes to is taken, and gets one if it can be loaded;
* `tells_execUserPrg`: **`exec` is safe exactly with these.**
-/

namespace AdvancedOS.Shell

open Stdio (sprintf)

variable {s s' : Sys} {α β : Type} {P : Prop} {foot : Footprint} {j : Junk} {junk : ℕ → Junk}
  {name ext : CStr} {fs : FileSystem} {r : Word × Word × ℕ} {free : ℕ} {pid : Word}

/-! ## Interrupts -/

/-- No interrupt is to come. -/
def Quiet (s : Sys) : Prop := ∀ n, s.arrivals n = []

/-- The code is safe exactly if `P` holds, unless an interrupt leaves for a process. -/
def Tells (P : Prop) (x : ShellKern α) (s : Sys) : Prop :=
  Ends x s (fun _ _ => P) fun e _ => ¬ Quiet s ∧ Harmless e ∨ (Harmless e ↔ P)

theorem SafeIff.tells {x : ShellKern α} (h : SafeIff P x s) : Tells P x s :=
  Ends.mono h (fun _ _ h => h) fun _ _ h => .inr h

theorem Tells.safe {x : ShellKern α} (h : Tells P x s) (hP : P) : Safe x s := by
  refine Ends.mono h (fun _ _ _ => trivial) fun e _ he => ?_
  rcases he with he | he
  · exact he.2
  · exact he.mpr hP

theorem Tells.of_quiet {x : ShellKern α} (h : Tells P x s) (hq : Quiet s) (hs : Safe x s) : P := by
  refine (Ends.mono (hs.and h) (fun _ _ h => h.2) fun e _ he => ?_).elim
  exact (he.2.resolve_left fun h => h.1 hq).mp he.1

theorem forall_safe_iff {x : ShellKern α} (h : ∀ a, Tells P x (s.withArrivals a)) :
    (∀ a, Safe x (s.withArrivals a)) ↔ P :=
  ⟨fun hs => (h fun _ => []).of_quiet (fun _ => rfl) (hs _), fun hP a => (h a).safe hP⟩

theorem Tells.pure {x : ShellKern α} (h : Tells P x s) (b : β) :
    Tells P (x >>= fun _ => Pure.pure b) s := by
  unfold Tells
  rw [ends_bind]
  exact Ends.mono h (fun _ _ h => (ends_pure _).mpr h) fun _ _ h => h

theorem not_quiet_of_torn {e : Stop} (h : s.Torn e s') : ¬ Quiet s ∧ Harmless (.stop e) := by
  obtain ⟨⟨c, rfl⟩, ⟨⟨n, hn⟩, -⟩, -⟩ := h
  exact ⟨fun hq => hn (hq n), trivial⟩

theorem Quiet.of_shift (hq : Quiet s) (h : ∃ n, ∀ i, s'.arrivals i = s.arrivals (n + i)) :
    Quiet s' := by
  obtain ⟨n, hn⟩ := h
  intro i
  rw [hn, hq]

/-! ## Reading a program -/

/-- What is there under the name can be read: the clusters can be followed, and an `.out` file fits
`bin_img` and can be parsed if it is one. -/
structure ReadSafe (fs : FileSystem) (junk : Junk) (name ext : CStr) : Prop where
  com : ext = comExt → findRoot fs.rootDir name ≠ none →
    ∃ cs, Found (some (comAddr junk.addr name)) fs name cs
  out : ext = outExt → findRoot fs.rootDir name ≠ none → ∃ cs, Found none fs name cs ∧
    (Elf.magic (programImage fs cs) = ELF_MAGIC → Elf.Fits junk.header (programImage fs cs))

theorem Found.ne_none {dst : Option Word} {cs : List FatIdx} (h : Found dst fs name cs) :
    findRoot fs.rootDir name ≠ none := by
  obtain ⟨i, hi, -⟩ := h
  exact hi ▸ Option.some_ne_none i

theorem outExt_ne_comExt : outExt ≠ comExt := by decide

theorem readSafe_com (h : findRoot fs.rootDir name ≠ none) : ReadSafe fs j name comExt ↔
    ∃ cs, Found (some (comAddr j.addr name)) fs name cs :=
  ⟨fun hr => hr.com rfl h, fun hf => ⟨fun _ _ => hf, fun he => absurd he.symm outExt_ne_comExt⟩⟩

theorem readSafe_out (h : findRoot fs.rootDir name ≠ none) : ReadSafe fs j name outExt ↔
    ∃ cs, Found none fs name cs ∧
      (Elf.magic (programImage fs cs) = ELF_MAGIC → Elf.Fits j.header (programImage fs cs)) :=
  ⟨fun hr => hr.out rfl h, fun hf => ⟨fun he => absurd he outExt_ne_comExt, fun _ _ => hf⟩⟩

theorem readSafe_none (h : findRoot fs.rootDir name = none) : ReadSafe fs j name ext :=
  ⟨fun _ hn => absurd h hn, fun _ hn => absurd h hn⟩

theorem not_loads (h : findRoot fs.rootDir name = none) : ¬ Loads j fs name ext := by
  rintro ⟨r, hr⟩
  cases hr with
  | com _ hf => exact Found.ne_none hf h
  | out _ hf _ => exact Found.ne_none hf h

theorem ends_loadFile {dst : Option Word} (hc : s.k.currProc = none) :
    Ends (onReads (loadFile dst name)) s
      (fun o s' => s.Keeps s' ∧ (o = none → findRoot s.fs.rootDir name = none) ∧
        ∀ l, o = some l → ∃ cs, Found dst s.fs name cs ∧ l = cs.map (clusterSector s.fs.disk))
      (fun e _ => ¬ Quiet s ∧ Harmless e ∨ ¬ Harmless e ∧ findRoot s.fs.rootDir name ≠ none ∧
        ¬ ∃ cs, Found dst s.fs name cs) := by
  rw [ends_onReads]
  cases hi : findRoot s.fs.rootDir name with
  | none =>
    simp only [loadFile, ends_bind, ends_get, hi, ends_pure]
    exact ⟨.refl s, fun _ => trivial, fun l hl => by cases hl⟩
  | some i =>
    refine (AdvancedOS.ends_loadFile dst name hc).mono (fun o s' h => ?_) fun e s' h => ?_
    · exact ⟨h.1, fun ho => hi ▸ h.2.1 ho, h.2.2⟩
    · rcases h with ht | ⟨⟨e, rfl⟩, -, hno⟩
      · have hq := not_quiet_of_torn ht
        obtain ⟨⟨c, rfl⟩, -⟩ := ht
        exact .inl hq
      · exact .inr ⟨not_harmless_reads e, Option.some_ne_none i, hno⟩

/-- The program has been read, or it is not there. -/
structure HasRead (s : Sys) (j : Junk) (name ext : CStr) (o : Option (Word × Word × ℕ)) (s' : Sys) :
    Prop where
  keeps : s.Keeps s'
  safe : ReadSafe s.fs j name ext
  absent : o = none → ¬ Loads j s.fs name ext
  loaded : ∀ r, o = some r → Loaded j s.fs name ext r

/-- An interrupt has left for a process, or reading has stopped with `e`, harmlessly only if the program
can be read. -/
def StopsReading (s : Sys) (j : Junk) (name ext : CStr) (e : Trouble) : Prop :=
  ¬ Quiet s ∧ Harmless e ∨ (Harmless e ↔ ReadSafe s.fs j name ext) ∧ ¬ Loads j s.fs name ext

theorem HasRead.missing (hk : s.Keeps s') (h : findRoot s.fs.rootDir name = none) :
    HasRead s j name ext none s' :=
  ⟨hk, readSafe_none h, fun _ => not_loads h, fun r hr => by cases hr⟩

/-- The file could not be read. -/
theorem StopsReading.of_file {dst : Option Word} {e : Trouble}
    (hread : ReadSafe s.fs j name ext → findRoot s.fs.rootDir name ≠ none →
      ∃ cs, Found dst s.fs name cs)
    (hloads : Loads j s.fs name ext → ∃ cs, Found dst s.fs name cs)
    (h : ¬ Quiet s ∧ Harmless e ∨ ¬ Harmless e ∧ findRoot s.fs.rootDir name ≠ none ∧
      ¬ ∃ cs, Found dst s.fs name cs) : StopsReading s j name ext e :=
  h.imp_right fun ⟨he, hne, hno⟩ =>
    ⟨iff_of_false he fun hr => hno (hread hr hne), fun hl => hno (hloads hl)⟩

theorem ends_readProgram_com (hc : s.k.currProc = none) : Ends (readProgram j name comExt) s
    (HasRead s j name comExt) fun e _ => StopsReading s j name comExt e := by
  rw [readProgram, if_pos rfl, ends_bind]
  refine (ends_loadFile hc).mono (fun o s' h => ?_) fun e s' h => .of_file (fun hr => hr.com rfl) ?_ h
  · obtain ⟨hk, hn, ho⟩ := h
    cases o with
    | none => exact (ends_pure _).mpr (.missing hk (hn rfl))
    | some l =>
      obtain ⟨cs, hf, rfl⟩ := ho l rfl
      refine (ends_pure _).mpr ⟨hk, (readSafe_com (Found.ne_none hf)).mpr ⟨cs, hf⟩,
        fun h => (Option.some_ne_none _ h).elim, fun r hr => ?_⟩
      cases hr
      rw [List.length_map]
      exact .com rfl hf
  · rintro ⟨r, hr⟩
    cases hr with
    | com _ hf => exact ⟨_, hf⟩
    | out ho => exact absurd ho.symm outExt_ne_comExt

/-- What is in `bin_img` is parsed. -/
theorem ends_parse {s₀ : Sys} {cs : List FatIdx} (hk : s₀.Keeps s) (hc : s₀.k.currProc = none)
    (hf : Found none s₀.fs name cs) : Ends (onSys do
        let addrExec ← onFs (parseElf j.header (programImage s₀.fs cs) outAddr)
        letIn
        return some (addrExec, outAddr, Elf.loadSize j.header (programImage s₀.fs cs))) s
      (HasRead s₀ j name outExt) fun e _ => StopsReading s₀ j name outExt e := by
  -- loading depends on the same file
  have hfits : Loads j s₀.fs name outExt → Elf.Fits j.header (programImage s₀.fs cs) := by
    rintro ⟨r, hr⟩
    cases hr with
    | com h => exact absurd h outExt_ne_comExt
    | out _ hf' h =>
      cases hf.unique hf'
      exact h
  have hsafe : ReadSafe s₀.fs j name outExt ↔ (Elf.magic (programImage s₀.fs cs) = ELF_MAGIC →
      Elf.Fits j.header (programImage s₀.fs cs)) := by
    rw [readSafe_out (Found.ne_none hf)]
    constructor
    · rintro ⟨cs', hf', h⟩
      cases hf.unique hf'
      exact h
    · exact fun h => ⟨cs, hf, h⟩
  simp only [ends_onSys, ends_bind, ends_onFs]
  by_cases hm : Elf.magic (programImage s₀.fs cs) = ELF_MAGIC
  · refine (ends_parseElf.and (ends_parseElf_fault hm)).mono ?_ ?_
    · rintro e f' ⟨⟨hfit, rfl, rfl⟩, -⟩
      have hk' := hk.trans (Sys.Keeps.setFiles (s := s) (f := s.files.setMem
        (Elf.loaded j.header (programImage s₀.fs cs) outAddr s.files.mem)) rfl)
      refine (ends_letIn (hk'.currProc.trans hc)).mono (fun _ s₂ h₂ => ?_) fun e s₂ ht => ?_
      · refine (ends_pure _).mpr ⟨hk'.trans h₂.1, hsafe.mpr fun _ => hfit,
          fun h => (Option.some_ne_none _ h).elim, fun r hr => ?_⟩
        cases hr
        exact .out rfl hf hfit
      · exact .inl (not_quiet_of_torn (ht.of_keeps hk'))
    · rintro e f' ⟨⟨hno, -⟩, rfl⟩
      exact .inr ⟨iff_of_false (fun h => h) fun h => hno (hsafe.mp h hm), fun h => hno (hfits h)⟩
  · change Ends (parseElf j.header (programImage s₀.fs cs) outAddr) _ _ _
    rw [parseElf, if_pos hm, ends_throw]
    exact .inr ⟨iff_of_true trivial (hsafe.mpr fun h => absurd h hm), fun h => hm (hfits h).magic⟩

theorem ends_readProgram_out (hc : s.k.currProc = none) : Ends (readProgram j name outExt) s
    (HasRead s j name outExt) fun e _ => StopsReading s j name outExt e := by
  rw [readProgram, if_neg outExt_ne_comExt, if_pos rfl, ends_bind]
  refine (ends_loadFile hc).mono (fun o s' h => ?_) fun e s' h => .of_file (fun hr hne => ?_) ?_ h
  · obtain ⟨hk, hn, ho⟩ := h
    cases o with
    | none => exact (ends_pure _).mpr (.missing hk (hn rfl))
    | some l =>
      obtain ⟨cs, hf, rfl⟩ := ho l rfl
      exact ends_parse hk hc hf
  · obtain ⟨cs, hf, -⟩ := (readSafe_out hne).mp hr
    exact ⟨cs, hf⟩
  · rintro ⟨r, hr⟩
    cases hr with
    | com hcom => exact absurd hcom outExt_ne_comExt
    | out _ hf => exact ⟨_, hf⟩

/-- **A program is read**, unless an interrupt leaves for a process. -/
theorem ends_readProgram (hc : s.k.currProc = none) : Ends (readProgram j name ext) s
    (HasRead s j name ext) fun e _ => StopsReading s j name ext e := by
  by_cases hcom : ext = comExt
  · subst hcom
    exact ends_readProgram_com hc
  by_cases hout : ext = outExt
  · subst hout
    exact ends_readProgram_out hc
  rw [readProgram, if_neg hcom, if_neg hout]
  refine (ends_pure _).mpr ⟨.refl s, ⟨fun h => absurd h hcom, fun h => absurd h hout⟩, fun _ => ?_,
    fun r hr => by cases hr⟩
  rintro ⟨r, hr⟩
  cases hr with
  | com h => exact hcom h
  | out h => exact hout h

/-! ## The body of the loop -/

/-- The name fits `buf`, it has an extension, and what is there can be read. -/
def Taken (fs : FileSystem) (junk : Junk) (name : CStr) : Prop :=
  name.length < 20 ∧ ∃ ext, name.after 0x2E = some ext ∧ ReadSafe fs junk name ext

/-- A program that has been read gets a process: it is not stored over the kernel, nor is the address
that it returns to, an entry is free, and the identifier fits `info_buf`. -/
structure Granted (foot : Footprint) (free : ℕ) (pid : Word) (r : Word × Word × ℕ) : Prop where
  program : foot.hit r.2.1 r.2.2 = false
  word : foot.hit (r.1 + PROC_SIZE - 4) 4 = false
  entry : 0 < free
  identifier : (pid + 1).toNat < 10000000

/-- Every name is taken, up to the first one that cannot be loaded, and all before get a process. -/
def TokensSafe (foot : Footprint) (fs : FileSystem) : ℕ → Word → List (Junk × CStr) → Prop
  | _, _, [] => True
  | free, pid, (junk, name) :: l => Taken fs junk name ∧ ∀ ext r, name.after 0x2E = some ext →
      Loaded junk fs name ext r → Granted foot free pid r ∧ TokensSafe foot fs (free - 1) (pid + 1) l

theorem length_digitText_lt (n : ℕ) : (Stdio.digitText 10 n).length < 8 ↔ n < 10000000 := by
  have hdig := Nat.digits_length_le_iff (b := 10) (k := 7) (by decide) n
  by_cases h0 : n = 0
  · subst h0
    decide
  · rw [Stdio.digitText, List.length_map, numeral_of_ne_zero h0, List.length_reverse,
      Nat.lt_succ_iff, hdig, show 10 ^ 7 = 10000000 from rfl]

theorem ends_infoBuf : Ends (infoBuf pid) s (fun _ s' => pid.toNat < 10000000 ∧ s' = s)
    fun e _ => ¬ Harmless e ∧ ¬ pid.toNat < 10000000 := by
  -- the text before the number, the number, and the exclamation mark
  let items : List Stdio.Item := ("Created user process ".toList.map fun c =>
    .lit (BitVec.ofNat 8 c.toNat)) ++ [.dec [], .lit 0x21]
  have hspec : ∃ t, sprintf (.ofChars "Created user process %d!".toList)
      (fun _ => ⟨pid, .ofList []⟩) = .ok t ∧
        t.toList = Stdio.actual (fun _ => ⟨pid, .ofList []⟩) 0 items :=
    Stdio.sprintf_items (by decide) (by decide) _
  obtain ⟨t, ht, hlist⟩ := hspec
  have hlen : t.length < 30 ↔ pid.toNat < 10000000 := by
    have htext : t.length = (Stdio.digitText 10 pid.toNat).length + 22 :=
      (congrArg List.length hlist).trans (by simp [items, Stdio.actual])
    rw [htext, ← length_digitText_lt]
    omega
  simp only [infoBuf, ht, ends_bind, ends_strcpyTo, ends_pure]
  refine ⟨fun h => (by cases h), fun x hx => ?_⟩
  cases hx
  exact ⟨fun h => ⟨hlen.mp h, trivial⟩, fun h => ⟨fun h => h, fun h' => h (hlen.mpr h')⟩⟩

/-- **A program that has been read gets a process** if it is granted one. -/
theorem ends_startProgram {s₀ : Sys} {addr base : Word} {size : ℕ} (hk : s₀.Keeps s)
    (hext : name.after 0x2E = some ext) (hl : Loaded j s₀.fs name ext (addr, base, size)) :
    Ends (startProgram foot j name addr base size) s
      (fun _ s' => Granted foot s₀.k.freeSlots s₀.k.currPid (addr, base, size) ∧ s₀.Creates j name s')
      fun e _ => ¬ Harmless e ∧ ¬ Granted foot s₀.k.freeSlots s₀.k.currPid (addr, base, size) := by
  rw [startProgram, ends_ite, ends_throw]
  refine ⟨fun hhit => ⟨fun h => h, fun hg => ?_⟩, fun hhit => ?_⟩
  · rcases hhit with hhit | hhit
    · exact Bool.false_ne_true (hg.program.symm.trans hhit)
    · exact Bool.false_ne_true (hg.word.symm.trans hhit)
  · obtain ⟨hbase, hword⟩ := not_or.mp hhit
    simp only [ends_bind, ends_onSys]
    refine (ends_create hk hext hl j.flags).mono (fun pp s₂ h₂ => ?_) fun e s₂ h₂ => ?_
    · obtain ⟨hcr, hpid, hfree⟩ := h₂
      simp only [ends_modify, ends_pure, ends_get]
      refine ends_infoBuf.mono (fun _ s₃ h₃ => ?_) fun e _ he => ⟨he.1, fun hg => ?_⟩
      · obtain ⟨hlt, rfl⟩ := h₃
        exact ⟨⟨eq_false_of_ne_true hbase, eq_false_of_ne_true hword, hfree, hpid ▸ hlt⟩, hcr⟩
      · exact he.2 (hpid ▸ hg.identifier)
    · rw [h₂.1]
      exact ⟨fun h => h, fun hg => hg.entry.ne' h₂.2.2⟩

theorem ends_loadProgram (hc : s.k.currProc = none) : Ends (loadProgram foot j name) s
    (fun b s' => Taken s.fs j name ∧ (b = false → ¬ Loadable s.fs j name) ∧
      (b = true → ∃ ext r, name.after 0x2E = some ext ∧ Loaded j s.fs name ext r ∧
        Granted foot s.k.freeSlots s.k.currPid r ∧ s.Creates j name s'))
    (fun e _ => ¬ Quiet s ∧ Harmless e ∨
      Harmless e ∧ Taken s.fs j name ∧ ¬ Loadable s.fs j name ∨
      ¬ Harmless e ∧ ¬ (Taken s.fs j name ∧ ∀ ext r, name.after 0x2E = some ext →
        Loaded j s.fs name ext r → Granted foot s.k.freeSlots s.k.currPid r)) := by
  rw [loadProgram, ends_bind, ends_strcpyTo]
  refine ⟨fun h => (by cases h), fun x hx => ?_⟩
  cases hx
  refine ⟨fun hlen => ?_, fun hlen => .inr (.inr ⟨fun h => h, fun h => hlen h.1.1⟩)⟩
  rw [ends_bind, ends_strArg]
  refine ⟨fun hno => .inr (.inr ⟨fun h => h, ?_⟩), fun ext hext => ?_⟩
  · rintro ⟨⟨-, ext, hext, -⟩, -⟩
    exact Option.some_ne_none ext (hext.symm.trans hno)
  have hext : name.after 0x2E = some ext := hext
  have htaken : Taken s.fs j name ↔ ReadSafe s.fs j name ext := by
    constructor
    · rintro ⟨-, ext', hext', h⟩
      cases hext.symm.trans hext'
      exact h
    · exact fun h => ⟨hlen, ext, hext, h⟩
  have hloads : Loadable s.fs j name ↔ Loads j s.fs name ext := by
    constructor
    · rintro ⟨ext', hext', h⟩
      cases hext.symm.trans hext'
      exact h
    · exact fun h => ⟨ext, hext, h⟩
  rw [ends_bind, hloads, htaken]
  refine (ends_readProgram hc).mono (fun o s₁ ho => ?_) fun e s₁ he => ?_
  · obtain ⟨hk, hread, hnone, hsome⟩ := ho
    cases o with
    | none =>
      exact (ends_pure _).mpr ⟨hread, fun _ => hnone rfl, fun h => (Bool.false_ne_true h).elim⟩
    | some r =>
      obtain ⟨addr, base, size⟩ := r
      have hl := hsome _ rfl
      rw [ends_bind]
      refine (ends_startProgram hk hext hl).mono (fun _ s₂ h₂ => ?_) fun e _ he => ?_
      · exact (ends_pure _).mpr ⟨hread, fun h => (Bool.false_ne_true h.symm).elim,
          fun _ => ⟨ext, _, hext, hl, h₂⟩⟩
      · exact .inr (.inr ⟨he.1, fun h => he.2 (h.2 ext _ hext hl)⟩)
  · rcases he with he | ⟨hiff, hno⟩
    · exact .inl he
    · by_cases hh : Harmless e
      · exact .inr (.inl ⟨hh, hiff.mp hh, hno⟩)
      · exact .inr (.inr ⟨hh, fun h => hh (hiff.mpr h.1)⟩)

/-! ## The loop -/

theorem tells_execLoop (n : ℕ) (list : Option CStr) (hc : s.k.currProc = none) :
    Tells (TokensSafe foot s.fs s.k.freeSlots s.k.currPid (execTokens junk n list))
      (execLoop foot junk n (strsep 0x20 list).1 (strsep 0x20 list).2) s := by
  induction n generalizing s list with
  | zero => exact (ends_throw _).mpr (.inr (iff_of_true trivial trivial))
  | succ n ih =>
    cases list with
    | none =>
      refine (ends_onSys _).mpr ((ends_onKernel _).mpr (ends_scheduleProc.mpr ⟨fun _ => ?_, ?_⟩))
      · exact trivial
      · exact fun q _ => .inr (iff_of_true trivial trivial)
    | some l =>
      rw [execTokens, TokensSafe]
      simp only [strsep, execLoop]
      rw [Tells, ends_bind]
      refine (ends_loadProgram hc).mono (fun b s' hb => ?_) fun e _ he => ?_
      · obtain ⟨ht, hno, hyes⟩ := hb
        rw [and_iff_right ht]
        cases b with
        | false =>
          refine (ends_pure _).mpr fun ext r hext hl => ?_
          exact (hno rfl ⟨ext, hext, r, hl⟩).elim
        | true =>
          obtain ⟨ext, r, hext, hl, hg, hcr⟩ := hyes rfl
          -- the rest of the list is looked at in the state after the process has been created
          have hrest : (∀ ext' r', (l.before 0x20).after 0x2E = some ext' →
              Loaded (junk n) s.fs (l.before 0x20) ext' r' →
              Granted foot s.k.freeSlots s.k.currPid r' ∧ TokensSafe foot s.fs (s.k.freeSlots - 1)
                (s.k.currPid + 1) (execTokens junk n (l.after 0x20))) ↔
              TokensSafe foot s'.fs s'.k.freeSlots s'.k.currPid
                (execTokens junk n (l.after 0x20)) := by
            have hfree := hcr.freeSlots
            rw [hcr.fs, hcr.currPid, show s'.k.freeSlots = s.k.freeSlots - 1 by omega]
            constructor
            · exact fun h => (h ext r hext hl).2
            · intro h ext' r' hext' hl'
              cases hext.symm.trans hext'
              cases hl.unique hl'
              exact ⟨hg, h⟩
          rw [hrest]
          refine Ends.mono (ih (l.after 0x20) (hcr.currProc.trans hc)) (fun _ _ h => h) fun e _ he => ?_
          exact he.imp_left fun h => ⟨fun hq => h.1 (hq.of_shift hcr.arrivals), h.2⟩
      · rcases he with he | ⟨hh, ht, hno⟩ | ⟨hh, hno⟩
        · exact .inl he
        · refine .inr (iff_of_true hh ⟨ht, fun ext r hext hl => ?_⟩)
          exact (hno ⟨ext, hext, r, hl⟩).elim
        · exact .inr (iff_of_false hh fun h => hno
            ⟨h.1, fun ext r hext hl => (h.2 ext r hext hl).1⟩)

/-- `exec` can take its arguments. -/
def ExecSafe (foot : Footprint) (s : Sys) (junk : ℕ → Junk) (nameList : Option CStr) : Prop :=
  TokensSafe foot s.fs s.k.freeSlots s.k.currPid (programList junk nameList)

theorem tells_execUserPrg {nameList : Option CStr} (hc : s.k.currProc = none) :
    Tells (ExecSafe foot s junk nameList) (execUserPrg foot junk nameList) s := by
  rw [Tells, execUserPrg, ends_bind, ends_onSys]
  refine (ends_letIn hc).mono (fun _ s' hk => ?_) fun e _ ht => .inl (not_quiet_of_torn ht)
  obtain ⟨hk, -⟩ := hk
  rw [ends_bind, ends_onSys, ends_onKernel, ends_disable]
  have hsafe : ExecSafe foot s junk nameList ↔ TokensSafe foot s'.fs s'.k.freeSlots s'.k.currPid
      (execTokens junk (nameList.elim 0 CStr.length + 2) nameList) := by
    rw [hk.fs, hk.freeSlots, hk.currPid]
    rfl
  rw [hsafe]
  refine Ends.mono (tells_execLoop (s := s'.setKernel (s'.k.setFlag false)) _ nameList
    (hk.currProc.trans hc)) (fun _ _ h => h) fun e _ he => ?_
  exact he.imp_left fun h => ⟨fun hq => h.1 (hq.of_shift hk.arrivals), h.2⟩

end AdvancedOS.Shell
