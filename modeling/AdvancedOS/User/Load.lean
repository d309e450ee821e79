import AdvancedOS.Fat.Spec
import AdvancedOS.User.Code
import AdvancedOS.Task.Spec

/-!
# Loading a program

What the functions of `user.h` do while no process is current, up to and including the creation of a
process, with the interrupts that arrive meanwhile.

* `Sys.Keeps`: what does not change until a process is created;
* `ends_letIn`: **an interrupt changes nothing else, unless there is a process to go on with**;
* `Elf.Fits`, `Loads`: which programs can be loaded;
* `ends_readProgram`: **they are, unless an interrupt comes in between.**
-/

namespace AdvancedOS

variable {s s' : Sys} {k : Kernel} {E : Stop → Sys → Prop}

/-! ## The two parts of the state -/

theorem ends_onKernel {α : Type} (x : Kern α) {Q : α → Sys → Prop} :
    Ends (onKernel x) s Q E ↔
      Ends x s.k (fun a k => Q a (s.setKernel k)) (fun e k => E (.exit e) (s.setKernel k)) :=
  ends_onPart ..

theorem ends_onFs {α : Type} (x : FsKern α) {Q : α → Sys → Prop} :
    Ends (onFs x) s Q E ↔
      Ends x s.files (fun a f => Q a (s.setFiles f)) (fun e f => E (.halt e) (s.setFiles f)) :=
  ends_onPart ..

/-- Everything but the memory, the interrupt flag, the clock and the histories is as before. -/
structure Sys.Keeps (s s' : Sys) : Prop where
  fs : s'.fs = s.fs
  created : s'.created = s.created
  procList : s'.k.procList = s.k.procList
  currProc : s'.k.currProc = s.k.currProc
  currPid : s'.k.currPid = s.k.currPid
  currTerminal : s'.k.currTerminal = s.k.currTerminal
  /-- The interrupts that arrive later are those that were to come. -/
  arrivals : ∃ n, ∀ i, s'.arrivals i = s.arrivals (n + i)

namespace Sys.Keeps

theorem refl (s : Sys) : s.Keeps s :=
  ⟨rfl, rfl, rfl, rfl, rfl, rfl, 0, fun i => by rw [Nat.zero_add]⟩

theorem trans {s₁ s₂ s₃ : Sys} (h : s₁.Keeps s₂) (h' : s₂.Keeps s₃) : s₁.Keeps s₃ := by
  obtain ⟨n, hn⟩ := h.arrivals
  obtain ⟨n', hn'⟩ := h'.arrivals
  exact ⟨h'.fs.trans h.fs, h'.created.trans h.created, h'.procList.trans h.procList,
    h'.currProc.trans h.currProc, h'.currPid.trans h.currPid,
    h'.currTerminal.trans h.currTerminal, n + n', fun i => by rw [hn', hn, Nat.add_assoc]⟩

theorem statuses (h : s.Keeps s') : s'.k.statuses = s.k.statuses := by
  unfold Kernel.statuses
  rw [h.procList]

/-- Code of the file system that changes none of its variables. -/
theorem setFiles {f : Fs} (h : f.toFileSystem = s.fs) : s.Keeps (s.setFiles f) :=
  ⟨h, rfl, rfl, rfl, rfl, rfl, 0, fun i => by rw [Nat.zero_add]; rfl⟩

end Sys.Keeps

/-! ## Interrupts -/

/-- The same state with other interrupts to come. -/
def Sys.withArrivals (a : ℕ → List Trap) (s : Sys) : Sys := ⟨s.k, s.fs, a, s.created⟩

/-- An interrupt arrives later, and there is a process to go on with. -/
def Sys.Disturbed (s : Sys) : Prop := (∃ n, s.arrivals n ≠ []) ∧ pick s.k.statuses ≠ none

theorem Sys.Disturbed.of_keeps (hk : s.Keeps s') (h : s'.Disturbed) : s.Disturbed := by
  obtain ⟨⟨n, hn⟩, hp⟩ := h
  obtain ⟨m, hm⟩ := hk.arrivals
  exact ⟨⟨m + n, by rwa [← hm]⟩, by rwa [← hk.statuses]⟩

/-- How a command ends that is interrupted for good. -/
def Sys.Torn (s : Sys) (e : Stop) (s' : Sys) : Prop :=
  (∃ c, e = .exit (.resumed c)) ∧ s.Disturbed ∧ s'.created = s.created

theorem Sys.Torn.of_keeps {e : Stop} {s'' : Sys} (hk : s.Keeps s') (h : s'.Torn e s'') :
    s.Torn e s'' :=
  ⟨h.1, h.2.1.of_keeps hk, h.2.2.trans hk.created⟩

/-- The kernel after a timer interrupt that finds no process. -/
def Kernel.SameBut (k k' : Kernel) : Prop :=
  k'.procList = k.procList ∧ k'.currProc = k.currProc ∧ k'.currPid = k.currPid ∧
    k'.currTerminal = k.currTerminal ∧ k'.mem = k.mem

theorem ends_pitHandler_none {t : Trap} (hc : k.currProc = none) : Ends (pitHandler t) k
    (fun _ k' => k.SameBut k') (fun e _ => (∃ c, e = .resumed c) ∧ pick k.statuses ≠ none) := by
  simp only [pitHandler, ends_bind, ends_record, ends_disable]
  rw [ends_pitHandlerMain_none _ (by exact hc)]
  refine ⟨fun _ => ⟨rfl, rfl, rfl, rfl, rfl⟩, fun _ => ends_scheduleProc.mpr ⟨fun _ => ?_, ?_⟩⟩
  · exact ⟨rfl, rfl, rfl, rfl, rfl⟩
  · intro q hq
    have hq' : pick k.statuses = some q := hq
    exact ⟨⟨_, rfl⟩, by rw [hq']; exact Option.some_ne_none q⟩

/-- **A timer interrupt while no process is current.** -/
theorem ends_timer {t : Trap} (hc : s.k.currProc = none) : Ends (timer t) s
    (fun _ s' => s.Keeps s' ∧ s'.arrivals = s.arrivals ∧ s'.k.mem = s.k.mem ∧
      s'.k.intFlag = true)
    (fun e s' => (∃ c, e = .exit (.resumed c)) ∧ pick s.k.statuses ≠ none ∧
      s'.created = s.created) := by
  rw [timer, ends_onKernel]
  simp only [ends_bind, ends_enable]
  refine (ends_pitHandler_none (k := s.k) (t := t.kernel) hc).mono ?_ ?_
  · rintro - k' ⟨h1, h2, h3, h4, h5⟩
    exact ⟨⟨rfl, rfl, h1, h2, h3, h4, 0, fun i => by rw [Nat.zero_add]; rfl⟩, rfl, h5, rfl⟩
  · rintro e k' ⟨⟨c, rfl⟩, hp⟩
    exact ⟨⟨c, rfl⟩, hp, rfl⟩

theorem ends_timers (l : List Trap) (hc : s.k.currProc = none) (hf : s.k.intFlag = true) :
    Ends (l.forM timer) s
      (fun _ s' => s.Keeps s' ∧ s'.arrivals = s.arrivals ∧ s'.k.mem = s.k.mem ∧
        s'.k.intFlag = true)
      (fun e s' => (∃ c, e = .exit (.resumed c)) ∧ l ≠ [] ∧ pick s.k.statuses ≠ none ∧
        s'.created = s.created) := by
  induction l generalizing s with
  | nil => exact (ends_pure _).mpr ⟨.refl s, rfl, rfl, hf⟩
  | cons t l ih =>
    change Ends (timer t >>= fun _ => l.forM timer) s _ _
    rw [ends_bind]
    refine (ends_timer hc).mono ?_ ?_
    · rintro - s₁ ⟨h1, h2, h3, h4⟩
      refine (ih (h1.currProc.trans hc) h4).mono ?_ ?_
      · rintro - s₂ ⟨h5, h6, h7, h8⟩
        exact ⟨h1.trans h5, h6.trans h2, h7.trans h3, h8⟩
      · rintro e s₂ ⟨he, -, hp, hcr⟩
        exact ⟨he, List.cons_ne_nil t l, by rwa [← h1.statuses], hcr.trans h1.created⟩
    · rintro e s₁ ⟨he, hp, hcr⟩
      exact ⟨he, List.cons_ne_nil t l, hp, hcr⟩

/-- **The interrupts that arrive while no process is current** change nothing that matters, unless
there is a process to go on with. -/
theorem ends_letIn (hc : s.k.currProc = none) : Ends letIn s
    (fun _ s' => s.Keeps s' ∧ s'.k.mem = s.k.mem ∧ s'.k.intFlag = s.k.intFlag)
    (fun e s' => s.Torn e s') := by
  have hpass : s.Keeps s.pass := ⟨rfl, rfl, rfl, rfl, rfl, rfl, 1, fun i => by
    rw [Nat.add_comm]
    rfl⟩
  simp only [letIn, ends_bind, ends_get, ends_modify, ends_ite]
  refine ⟨fun hf => ?_, fun _ => (ends_pure _).mpr ⟨hpass, rfl, rfl⟩⟩
  refine (ends_timers (s := s.pass) _ hc hf).mono ?_ ?_
  · rintro - s' ⟨h1, -, h2, h3⟩
    exact ⟨hpass.trans h1, h2, h3.trans hf.symm⟩
  · rintro e s' ⟨he, hl, hp, hcr⟩
    exact ⟨he, ⟨⟨0, hl⟩, hp⟩, hcr⟩

/-! ## Reading -/

/-- How a command ends that does not go through: it is interrupted for good, or `P` is missing. -/
def Sys.Fails (s : Sys) (P : Prop) (e : Stop) (s' : Sys) : Prop :=
  s.Torn e s' ∨ (∃ h, e = .halt h) ∧ s'.created = s.created ∧ ¬ P

theorem Sys.Fails.of_keeps {P P' : Prop} {e : Stop} {s'' : Sys} (hk : s.Keeps s') (hP : P' → P)
    (h : s'.Fails P e s'') : s.Fails P' e s'' := by
  rcases h with h | ⟨he, hcr, hp⟩
  · exact .inl (h.of_keeps hk)
  · exact .inr ⟨he, hcr.trans hk.created, fun h => hp (hP h)⟩

theorem ends_storeSector (dst : Option Word) (i : ℕ) (l : List Sector) : Ends (storeSector dst i l) s
    (fun _ s' => s.Keeps s' ∧ (dst = none → i < 30))
    (fun e s' => s.Fails (dst = none → i < 30) e s') := by
  cases dst with
  | some a =>
    rw [storeSector, ends_onFs, ends_modify]
    exact ⟨.setFiles rfl, fun h => by cases h⟩
  | none =>
    rw [storeSector, ends_ite, ends_onFs, ends_outOfBounds]
    refine ⟨fun hi => (ends_pure _).mpr ⟨.refl s, fun _ => hi⟩, fun hi => .inr ⟨⟨_, rfl⟩, rfl, ?_⟩⟩
    exact fun h => hi (h rfl)

/-- The clusters from `c` on are read to the end, the first one to the place `i`. -/
def Reads (dst : Option Word) (fat : FatIdx → Word) (n i : ℕ) (c : Word) (cs : List FatIdx) : Prop :=
  followLoop fat n c = .ok cs ∧ (dst = none → i + cs.length ≤ 30)

theorem reads_cons {dst : Option Word} {fat : FatIdx → Word} {n i : ℕ} {c : Word} {j : FatIdx}
    {cs : List FatIdx} (hj : fatIdx c = some j) (hs : ¬ Stops (fat j)) :
    Reads dst fat (n + 1) i c cs ↔ ∃ cs', cs = j :: cs' ∧ Reads dst fat n (i + 1) (fat j) cs' := by
  unfold Reads
  rw [followLoop, hj]
  simp only [if_neg hs]
  constructor
  · rintro ⟨hf, hi⟩
    cases hf' : followLoop fat n (fat j) with
    | error e =>
      rw [hf'] at hf
      cases hf
    | ok cs' =>
      rw [hf'] at hf
      cases hf
      refine ⟨cs', rfl, rfl, fun hd => ?_⟩
      have := hi hd
      rw [List.length_cons] at this
      omega
  · rintro ⟨cs', rfl, hf, hi⟩
    refine ⟨by rw [hf]; rfl, fun hd => ?_⟩
    have := hi hd
    rw [List.length_cons]
    omega

theorem ends_loadClustersLoop (dst : Option Word) (n i : ℕ) (c : Word)
    (hc : s.k.currProc = none) : Ends (loadClustersLoop dst n i c) s
      (fun l s' => s.Keeps s' ∧ ∃ cs, Reads dst s.fs.fat n i c cs ∧
        l = cs.map (clusterSector s.fs.disk))
      (fun e s' => s.Fails (∃ cs, Reads dst s.fs.fat n i c cs) e s') := by
  induction n generalizing i c s with
  | zero =>
    refine (ends_throw _).mpr (.inr ⟨⟨_, rfl⟩, rfl, ?_⟩)
    rintro ⟨cs, h, -⟩
    cases h
  | succ n ih =>
    rw [loadClustersLoop, ends_bind, ends_onFs, ends_readSectors_one]
    set s₁ := s.setFiles (s.files.sectorRead TMP_USER_ADDR _) with hs₁
    have hk₁ : s.Keeps s₁ := .setFiles rfl
    rw [ends_bind]
    -- no cluster is read if the first one has no place
    have hplace : (∃ cs, Reads dst s.fs.fat (n + 1) i c cs) → dst = none → i < 30 := by
      rintro ⟨cs, hf, hi⟩ hd
      have := hi hd
      have := List.length_pos_of_ne_nil (followLoop_chain hf).ne_nil
      omega
    refine (ends_storeSector dst i _).mono ?_ fun e s' h => h.of_keeps hk₁ hplace
    rintro - s₂ ⟨hk₂, hi⟩
    rw [ends_bind, ends_onFs, ends_fsEnable]
    set s₃ := s₂.setFiles (s₂.files.setFlag true) with hs₃
    have hk₃ : s.Keeps s₃ := (hk₁.trans hk₂).trans (.setFiles rfl)
    rw [ends_bind]
    refine (ends_letIn (hk₃.currProc.trans hc)).mono ?_ fun e s' h => .inl (h.of_keeps hk₃)
    rintro - s₄ ⟨hk, -, -⟩
    have hk₄ := hk₃.trans hk
    rw [ends_bind, ends_onFs, ends_fat12NextSector]
    have hfat : s₄.fs.fat = s.fs.fat := congrArg FileSystem.fat hk₄.fs
    have hsec : ∀ j, fatIdx c = some j →
        s.files.disk (c + BitVec.ofNat 32 FAT_DATA_REGION_START - 2) =
          clusterSector s.fs.disk j := by
      intro j hj
      rw [eq_of_fatIdx hj]
      rfl
    refine ⟨fun j hj => ?_, fun hn => .inr ⟨⟨_, rfl⟩, hk₄.created, ?_⟩⟩
    · by_cases hs : Stops (s.fs.fat j)
      · have hs' : Stops (s₄.files.fat j) := by
          rw [Sys.files_toFileSystem, hfat]
          exact hs
        simp only [hs', decide_true, Bool.not_true, Bool.false_eq_true, if_false, ends_pure]
        refine ⟨hk₄, [j], ⟨by simp [followLoop, hj, hs], fun hd => hi hd⟩, ?_⟩
        rw [hsec j hj]
        rfl
      · have hs' : ¬ Stops (s₄.files.fat j) := by
          rw [Sys.files_toFileSystem, hfat]
          exact hs
        simp only [hs', decide_false, Bool.not_false, if_true, ends_bind, ends_pure]
        refine (ih (s := s₄) (i + 1) (s₄.files.fat j) (hk₄.currProc.trans hc)).mono ?_ ?_
        · rintro l s' ⟨hk', cs, hr, rfl⟩
          rw [Sys.files_toFileSystem, hk₄.fs] at hr
          refine ⟨hk₄.trans hk', j :: cs, (reads_cons hj hs).mpr ⟨cs, rfl, hr⟩, ?_⟩
          rw [hsec j hj, hk₄.fs]
          rfl
        · intro e s' h
          refine h.of_keeps hk₄ ?_
          rintro ⟨cs, hr⟩
          obtain ⟨cs', -, hr'⟩ := (reads_cons hj hs).mp hr
          rw [Sys.files_toFileSystem, hk₄.fs]
          exact ⟨cs', hr'⟩
    · rintro ⟨cs, hf, -⟩
      rw [followLoop, hn] at hf
      cases hf

/-- The file `name` is there, and its clusters can be read. -/
def Found (dst : Option Word) (fs : FileSystem) (name : CStr) (cs : List FatIdx) : Prop :=
  ∃ i, findRoot fs.rootDir name = some i ∧
    FatChain fs.fat ((fs.rootDir i).startCluster.setWidth 32) cs ∧ (dst = none → cs.length ≤ 30)

theorem Found.unique {dst dst' : Option Word} {fs : FileSystem} {name : CStr}
    {cs cs' : List FatIdx} (h : Found dst fs name cs) (h' : Found dst' fs name cs') : cs = cs' := by
  obtain ⟨i, hi, hc, -⟩ := h
  obtain ⟨j, hj, hc', -⟩ := h'
  cases hi.symm.trans hj
  exact hc.unique hc'

theorem ends_loadFile (dst : Option Word) (name : CStr) (hc : s.k.currProc = none) :
    Ends (loadFile dst name) s
      (fun o s' => s.Keeps s' ∧ (o = none → findRoot s.fs.rootDir name = none) ∧
        ∀ l, o = some l → ∃ cs, Found dst s.fs name cs ∧ l = cs.map (clusterSector s.fs.disk))
      (fun e s' => s.Fails (∃ cs, Found dst s.fs name cs) e s') := by
  simp only [loadFile, ends_bind, ends_get]
  cases hi : findRoot s.fs.rootDir name with
  | none => exact (ends_pure _).mpr ⟨.refl s, fun _ => rfl, fun l hl => by cases hl⟩
  | some i =>
    have hreads : ∀ cs, Reads dst s.fs.fat rounds 0 ((s.fs.rootDir i).startCluster.setWidth 32) cs ↔
        Found dst s.fs name cs := by
      intro cs
      unfold Reads Found
      rw [Nat.zero_add]
      constructor
      · rintro ⟨hf, hl⟩
        exact ⟨i, hi, follow_eq_ok.mp hf, hl⟩
      · rintro ⟨j, hj, hf, hl⟩
        cases hi.symm.trans hj
        exact ⟨follow_eq_ok.mpr hf, hl⟩
    simp only [ends_bind, ends_pure]
    refine (ends_loadClustersLoop dst rounds 0 _ hc).mono ?_ ?_
    · rintro l s' ⟨hk, cs, hr, rfl⟩
      refine ⟨hk, fun h => (Option.some_ne_none _ h).elim, fun l' hl' => ?_⟩
      cases hl'
      exact ⟨cs, (hreads cs).mp hr, rfl⟩
    · intro e s' h
      exact h.of_keeps (.refl s) (Exists.imp fun cs hf => (hreads cs).mpr hf)

/-! ## Parsing -/

theorem InImage.le {o n : ℕ} (h : InImage o n) : n ≤ BIN_SIZE := by
  rcases h with rfl | h
  · exact Nat.zero_le _
  · exact (Nat.le_add_left _ _).trans h

/-- The header at the offset `o` is read from inside the image. -/
def Elf.Inside (img : BinImg) (o : Word) : Prop :=
  Elf.phentsize img ≤ 32 ∧ InImage o.toNat (Elf.phentsize img)

/-- `parse_elf` reads nothing from outside its arrays, and the magic number is right. -/
structure Elf.Fits (ph : Bytes 32) (img : BinImg) : Prop where
  magic : Elf.magic img = ELF_MAGIC
  headers : ∀ i < Elf.phnum img,
    Elf.Inside img (Elf.phoff img + BitVec.ofNat 32 (i * Elf.phentsize img))
  segment : 0 < Elf.phnum img →
    InImage (Elf.offset (Elf.header img (Elf.phoff img).toNat ph)).toNat
      (Elf.memsz (Elf.header img (Elf.phoff img).toNat ph)).toNat

theorem Elf.Fits.loadSize_le {ph : Bytes 32} {img : BinImg} (h : Elf.Fits ph img) :
    Elf.loadSize ph img ≤ BIN_SIZE := by
  unfold Elf.loadSize
  split_ifs with h0
  · exact Nat.zero_le _
  · exact (h.segment (Nat.pos_of_ne_zero h0)).le

/-- The memory after `parse_elf`. -/
def Elf.loaded (ph : Bytes 32) (img : BinImg) (addrExec : Word) (m : Mem) : Mem :=
  if Elf.phnum img = 0 then m
  else
    let ph := Elf.header img (Elf.phoff img).toNat ph
    m.store addrExec (img.slice (Elf.offset ph).toNat (Elf.memsz ph).toNat)

section

variable {img : BinImg} {addrExec : Word} {ph : Bytes 32} {f : Fs} {o : Word} {n : ℕ}
  {E : Halt → Fs → Prop}

theorem forall_inside_succ :
    (∀ i < n + 1, Elf.Inside img (o + BitVec.ofNat 32 (i * Elf.phentsize img))) ↔
    Elf.Inside img o ∧ ∀ i < n, Elf.Inside img
      (o + BitVec.ofNat 32 (Elf.phentsize img) + BitVec.ofNat 32 (i * Elf.phentsize img)) := by
  have hoff : ∀ i : ℕ, o + BitVec.ofNat 32 (Elf.phentsize img) +
      BitVec.ofNat 32 (i * Elf.phentsize img) =
        o + BitVec.ofNat 32 ((i + 1) * Elf.phentsize img) := by
    intro i
    rw [BitVec.add_assoc, ← BitVec.ofNat_add, Nat.succ_mul, Nat.add_comm (Elf.phentsize img)]
  have h0 : o + BitVec.ofNat 32 (0 * Elf.phentsize img) = o := by
    rw [Nat.zero_mul]
    exact BitVec.add_zero o
  simp only [hoff]
  constructor
  · intro h
    exact ⟨h0 ▸ h 0 (Nat.succ_pos n), fun i hi => h (i + 1) (Nat.succ_lt_succ hi)⟩
  · rintro ⟨h, ht⟩ i hi
    cases i with
    | zero => rwa [h0]
    | succ i => exact ht i (Nat.lt_of_succ_lt_succ hi)

theorem not_inside : (32 < Elf.phentsize img ∨ ¬ InImage o.toNat (Elf.phentsize img)) ↔
    ¬ Elf.Inside img o := by
  rw [Elf.Inside, not_and_or, not_le]

/-- The turns after the first one load nothing. -/
theorem ends_headerLoop_succ (i : ℕ) : Ends (headerLoop img addrExec n (i + 1) o ph) f
    (fun _ f' => (∀ i < n, Elf.Inside img (o + BitVec.ofNat 32 (i * Elf.phentsize img))) ∧ f' = f)
    (fun _ f' => (¬ ∀ i < n, Elf.Inside img (o + BitVec.ofNat 32 (i * Elf.phentsize img))) ∧
      f' = f) := by
  induction n generalizing i o ph with
  | zero => exact (ends_pure _).mpr ⟨fun i hi => absurd hi (Nat.not_lt_zero i), rfl⟩
  | succ n ih =>
    simp only [forall_inside_succ, headerLoop, ends_ite, not_inside, ends_outOfBounds, not_not,
      Nat.succ_ne_zero, if_false]
    refine ⟨fun h => ⟨fun hn => h hn.1, trivial⟩, fun h => (ih (i + 1)).mono ?_ ?_⟩
    · rintro - f' ⟨ht, hf⟩
      exact ⟨⟨h, ht⟩, hf⟩
    · rintro - f' ⟨ht, hf⟩
      exact ⟨fun hn => ht hn.2, hf⟩

theorem ends_parseElf : Ends (parseElf ph img addrExec) f
    (fun e f' => Elf.Fits ph img ∧ e = Elf.entry img ∧
      f' = f.setMem (Elf.loaded ph img addrExec f.mem))
    (fun _ f' => ¬ Elf.Fits ph img ∧ f'.toFileSystem = f.toFileSystem) := by
  simp only [parseElf, ends_ite, ends_throw, ends_bind, ends_pure]
  refine ⟨fun h => ⟨fun hf => h hf.magic, trivial⟩, fun hm => ?_⟩
  have hm : Elf.magic img = ELF_MAGIC := not_not.mp hm
  cases hn : Elf.phnum img with
  | zero =>
    refine (ends_pure _).mpr ⟨⟨hm, fun i hi => ?_, fun h => ?_⟩, trivial, ?_⟩
    · rw [hn] at hi
      exact absurd hi (Nat.not_lt_zero i)
    · rw [hn] at h
      exact absurd h (lt_irrefl 0)
    · rw [Elf.loaded, if_pos hn]
      rfl
  | succ n =>
    have hh := @forall_inside_succ img (Elf.phoff img) n
    rw [← hn] at hh
    have hload : Elf.loaded ph img addrExec f.mem = f.mem.store addrExec (img.slice
        (Elf.offset (Elf.header img (Elf.phoff img).toNat ph)).toNat
        (Elf.memsz (Elf.header img (Elf.phoff img).toNat ph)).toNat) :=
      if_neg (by rw [hn]; exact Nat.succ_ne_zero n)
    simp only [headerLoop, ends_ite, not_inside, ends_outOfBounds, not_not, if_true, ends_bind,
      ends_modify]
    refine ⟨fun h => ⟨fun hf => h (hh.mp hf.headers).1, trivial⟩,
      fun h => ⟨fun hs => ⟨fun hf => ?_, trivial⟩, fun hs => ?_⟩⟩
    · exact hs (hf.segment (by rw [hn]; exact Nat.succ_pos n))
    · refine (ends_headerLoop_succ 0).mono ?_ ?_
      · rintro - f' ⟨ht, rfl⟩
        exact ⟨⟨hm, hh.mpr ⟨h, ht⟩, fun _ => hs⟩, trivial, by rw [hload]⟩
      · rintro - f' ⟨ht, rfl⟩
        exact ⟨fun hf => ht (hh.mp hf.headers).2, rfl⟩

end

/-! ## Programs -/

/-- What is in `bin_img` after the clusters `cs` have been read. -/
def programImage (fs : FileSystem) (cs : List FatIdx) : BinImg :=
  .ofList (bytesOf (cs.map (clusterSector fs.disk)))

/-- The program `name` is loaded: `addr_exec` in the end, where it is loaded, and how much of it. -/
inductive Loaded (junk : Junk) (fs : FileSystem) (name ext : CStr) : Word × Word × ℕ → Prop
  | com {cs : List FatIdx} : ext = comExt → Found (some (comAddr junk.addr name)) fs name cs →
      Loaded junk fs name ext (comAddr junk.addr name, comAddr junk.addr name,
        cs.length * FAT_SECTOR_SIZE)
  | out {cs : List FatIdx} : ext = outExt → Found none fs name cs →
      Elf.Fits junk.header (programImage fs cs) →
      Loaded junk fs name ext (Elf.entry (programImage fs cs), outAddr,
        Elf.loadSize junk.header (programImage fs cs))

/-- The program `name` can be loaded. -/
def Loads (junk : Junk) (fs : FileSystem) (name ext : CStr) : Prop :=
  ∃ r, Loaded junk fs name ext r

/-- The same, with the extension that the name has. -/
def Loadable (fs : FileSystem) (junk : Junk) (name : CStr) : Prop :=
  ∃ ext, name.after 0x2E = some ext ∧ Loads junk fs name ext

/-- **A program is read if it can be**, unless an interrupt that comes in between leaves for
another process. -/
theorem ends_readProgram (junk : Junk) (name ext : CStr) (hc : s.k.currProc = none) :
    Ends (readProgram junk name ext) s
      (fun o s' => s.Keeps s' ∧ (o = none → ¬ Loads junk s.fs name ext) ∧
        ∀ r, o = some r → Loaded junk s.fs name ext r)
      (fun e s' => s.Fails (Loads junk s.fs name ext) e s') := by
  have hne : outExt ≠ comExt := by decide
  -- a file that is not there cannot be loaded
  have hnot : findRoot s.fs.rootDir name = none → ¬ Loads junk s.fs name ext := by
    rintro hn ⟨r, h⟩
    cases h with
    | com _ hf | out _ hf _ =>
      obtain ⟨i, hi, -⟩ := hf
      rw [hn] at hi
      cases hi
  unfold readProgram
  by_cases hcom : ext = comExt
  · rw [if_pos hcom, ends_bind]
    refine (ends_loadFile _ name hc).mono ?_ ?_
    · rintro o s' ⟨hk, hn, ho⟩
      cases o with
      | none => exact (ends_pure _).mpr ⟨hk, fun _ => hnot (hn rfl), fun r hr => by cases hr⟩
      | some l =>
        obtain ⟨cs, hf, rfl⟩ := ho l rfl
        refine (ends_pure _).mpr ⟨hk, fun h => (Option.some_ne_none _ h).elim, fun r hr => ?_⟩
        cases hr
        rw [List.length_map]
        exact .com hcom hf
    · intro e s' h
      refine h.of_keeps (.refl s) ?_
      rintro ⟨r, h⟩
      cases h with
      | com _ hf => exact ⟨_, hf⟩
      | out ho => exact absurd (ho.symm.trans hcom) hne
  · rw [if_neg hcom]
    by_cases hout : ext = outExt
    · rw [if_pos hout, ends_bind]
      refine (ends_loadFile none name hc).mono ?_ ?_
      · rintro o s' ⟨hk, hn, ho⟩
        cases o with
        | none => exact (ends_pure _).mpr ⟨hk, fun _ => hnot (hn rfl), fun r hr => by cases hr⟩
        | some l =>
          obtain ⟨cs, hf, rfl⟩ := ho l rfl
          simp only [ends_bind, ends_onFs]
          refine ends_parseElf.mono ?_ ?_
          · rintro e f' ⟨hfits, rfl, rfl⟩
            have hk' := hk.trans (Sys.Keeps.setFiles (s := s') (f := s'.files.setMem
              (Elf.loaded junk.header (programImage s.fs cs) outAddr s'.files.mem)) rfl)
            refine (ends_letIn (hk'.currProc.trans hc)).mono ?_ fun e s'' h => .inl (h.of_keeps hk')
            rintro - s'' ⟨hk'', -, -⟩
            refine (ends_pure _).mpr ⟨hk'.trans hk'', fun h => (Option.some_ne_none _ h).elim, ?_⟩
            intro r hr
            cases hr
            exact .out hout hf hfits
          · rintro e f' ⟨hfits, hf'⟩
            refine .inr ⟨⟨_, rfl⟩, hk.created, ?_⟩
            rintro ⟨r, h⟩
            cases h with
            | com hc' _ => exact hcom hc'
            | out _ hf2 hfits2 =>
              cases hf.unique hf2
              exact hfits hfits2
      · intro e s' h
        refine h.of_keeps (.refl s) ?_
        rintro ⟨r, h⟩
        cases h with
        | com hc' _ => exact absurd hc' hcom
        | out _ hf _ => exact ⟨_, hf⟩
    · rw [if_neg hout]
      refine (ends_pure _).mpr ⟨.refl s, fun _ => ?_, fun r hr => by cases hr⟩
      rintro ⟨r, h⟩
      cases h with
      | com hc' _ => exact hcom hc'
      | out ho => exact hout ho

/-! ## Creating the process -/

/-- The number of entries that `proc_alloc` can still give away. -/
def Kernel.freeSlots (k : Kernel) : ℕ :=
  (Finset.univ.filter fun i => (k.procList i).status = .new).card

theorem Sys.Keeps.freeSlots (h : s.Keeps s') : s'.k.freeSlots = s.k.freeSlots := by
  unfold Kernel.freeSlots
  rw [h.procList]

theorem freeSlots_eq_zero : k.freeSlots = 0 ↔ freeSlot k.procList = none := by
  unfold Kernel.freeSlots freeSlot
  rw [Finset.card_eq_zero, Finset.filter_eq_empty_iff, List.find?_eq_none]
  simp

theorem freeSlots_spawn {i : Slot} (hi : freeSlot k.procList = some i) (r : Regs)
    (q : Option Slot) (t : ℕ) (mem : Mem) :
    (k.spawn i r q t mem).freeSlots + 1 = k.freeSlots := by
  have hnew : (k.procList i).status = .new := by simpa using List.find?_some hi
  have hmem : i ∈ Finset.univ.filter fun j => (k.procList j).status = .new :=
    Finset.mem_filter.mpr ⟨Finset.mem_univ i, hnew⟩
  have herase : (Finset.univ.filter fun j => ((k.spawn i r q t mem).procList j).status = .new) =
      (Finset.univ.filter fun j => (k.procList j).status = .new).erase i := by
    ext j
    simp only [Finset.mem_filter, Finset.mem_univ, true_and, Finset.mem_erase]
    by_cases hj : j = i
    · subst hj
      simp [Kernel.spawn, Kernel.record]
    · simp [Kernel.spawn, Kernel.record, hj]
  rw [Kernel.freeSlots, herase]
  exact Finset.card_erase_add_one hmem

/-- The programs for which processes have been created. -/
def Sys.names (s : Sys) : List CStr := s.created.map Creation.name

/-- A process has been created for a program, and everything else is as the next one needs it. -/
structure Sys.Creates (s : Sys) (junk : Junk) (name : CStr) (s' : Sys) : Prop where
  fs : s'.fs = s.fs
  created : ∃ ext r i, name.after 0x2E = some ext ∧ Loaded junk s.fs name ext r ∧
    s'.created = s.created ++ [⟨name, i, r.1, r.2.1, r.2.2⟩] ∧
    (s'.k.procList i).regImg.eip = r.1 ∧ (s'.k.procList i).status = .ready ∧
    ∀ j ≠ i, s'.k.procList j = s.k.procList j
  currProc : s'.k.currProc = s.k.currProc
  currPid : s'.k.currPid = s.k.currPid + 1
  /-- There is a process to go on with. -/
  ready : pick s'.k.statuses ≠ none
  freeSlots : s'.k.freeSlots + 1 = s.k.freeSlots
  arrivals : ∃ n, ∀ i, s'.arrivals i = s.arrivals (n + i)

theorem Sys.Creates.names {junk : Junk} {name : CStr} (h : s.Creates junk name s') :
    s'.names = s.names ++ [name] := by
  obtain ⟨ext, r, i, -, -, hcr, -⟩ := h.created
  rw [Sys.names, hcr, List.map_append]
  rfl

theorem ends_create {s₀ : Sys} (hk : s₀.Keeps s) {junk : Junk} {name ext : CStr}
    {addr base : Word} {size : ℕ} (hext : name.after 0x2E = some ext)
    (hl : Loaded junk s₀.fs name ext (addr, base, size)) (flag : Word) :
    Ends (onKernel (procCreate USER_CS USER_DS addr flag)) s
      (fun pp s' => s₀.Creates junk name (s'.log ⟨name, pp, addr, base, size⟩) ∧
        (s'.k.procList pp).pid = s₀.k.currPid + 1 ∧ 0 < s₀.k.freeSlots)
      (fun e s' => e = .exit (.fault .null) ∧ s'.created = s₀.created ∧ s₀.k.freeSlots = 0) := by
  rw [ends_onKernel, ends_procCreate, ← hk.freeSlots]
  refine ⟨fun hn => ⟨rfl, hk.created, freeSlots_eq_zero.mpr hn⟩, fun i hi => ?_⟩
  have hspawn := freeSlots_spawn hi (createdImage (s.k.procList i).regImg USER_CS USER_DS addr flag)
    (s.k.procList i).parent s.k.currTerminal
    (s.k.mem.write (addr + PROC_SIZE - 4) s.k.processReturn)
  refine ⟨⟨hk.fs, ⟨ext, _, i, hext, hl, ?_, ?_, ?_, fun j hj => ?_⟩, hk.currProc,
    congrArg (· + 1) hk.currPid, fun hn => ?_, hspawn.trans hk.freeSlots, hk.arrivals⟩, ?_, ?_⟩
  · simp [Sys.log, hk.created]
  · simp [Sys.log, Kernel.spawn, Kernel.record, createdImage]
  · simp [Sys.log, Kernel.spawn, Kernel.record]
  · simp [Sys.log, Kernel.spawn, Kernel.record, hj, hk.procList]
  · refine (pick_eq_none.mp hn i).1 ?_
    simp [Sys.log, Kernel.statuses, Kernel.spawn, Kernel.record]
  · simp [Kernel.spawn, Kernel.record, hk.currPid]
  · exact hspawn ▸ Nat.succ_pos _

/-- The names in a list, with what the variables hold when they are loaded; the loop gets `n`
rounds. -/
def execTokens (junk : ℕ → Junk) : ℕ → Option CStr → List (Junk × CStr)
  | 0, _ => []
  | _ + 1, none => []
  | n + 1, some s => (junk n, s.before 0x20) :: execTokens junk n (s.after 0x20)

/-- The names in the argument of `exec_user_prg`. -/
def programList (junk : ℕ → Junk) (nameList : Option CStr) : List (Junk × CStr) :=
  execTokens junk (nameList.elim 0 CStr.length + 2) nameList

/-- **A program is loaded and gets a process if it can be read and an entry is free**, unless an
interrupt that comes in between leaves for another process. -/
theorem ends_loadProgram (junk : Junk) {name : CStr} (hlen : name.length < 20)
    (hext : name.after 0x2E ≠ none) (hc : s.k.currProc = none) : Ends (loadProgram junk name) s
      (fun b s' => (b = true → Loadable s.fs junk name ∧ 0 < s.k.freeSlots ∧ s.Creates junk name s') ∧
        (b = false → ¬ Loadable s.fs junk name ∧ s.Keeps s'))
      (fun e s' => s.Torn e s' ∨
        s'.created = s.created ∧ ¬ (Loadable s.fs junk name ∧ 0 < s.k.freeSlots)) := by
  obtain ⟨ext, hext⟩ := Option.ne_none_iff_exists'.mp hext
  have hiff : Loadable s.fs junk name ↔ Loads junk s.fs name ext := by
    constructor
    · rintro ⟨ext', hext', h⟩
      cases hext.symm.trans hext'
      exact h
    · exact fun h => ⟨ext, hext, h⟩
  rw [hiff, loadProgram, if_pos hlen, ends_bind, ends_onFs, ends_pointee]
  change Ends _ s _ _
  simp only [strsep, hext, Option.getD_some, ends_bind]
  refine (ends_readProgram junk name ext hc).mono ?_ ?_
  · rintro o s₁ ⟨hk, hn, ho⟩
    cases o with
    | none => exact (ends_pure _).mpr ⟨fun h => (Bool.false_ne_true h).elim, fun _ => ⟨hn rfl, hk⟩⟩
    | some r =>
      obtain ⟨addr, base, size⟩ := r
      have hloads : Loads junk s.fs name ext := ⟨_, ho _ rfl⟩
      simp only [ends_bind]
      refine (ends_create hk hext (ho _ rfl) junk.flags).mono (fun pp s₂ h₂ => ?_) fun e s₂ h₂ => ?_
      · exact (ends_modify _).mpr ((ends_pure _).mpr
          ⟨fun _ => ⟨hloads, h₂.2.2, h₂.1⟩, fun h => (Bool.false_ne_true h.symm).elim⟩)
      · exact .inr ⟨h₂.2.1, fun h => h.2.ne' h₂.2.2⟩
  · rintro e s' (ht | ⟨-, hcr, hn⟩)
    · exact .inl ht
    · exact .inr ⟨hcr, fun h => hn h.1⟩

end AdvancedOS
