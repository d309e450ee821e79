import AdvancedOS.File.Writes
import Mathlib.Data.List.FinRange

/-!
# Open handles

`do_fopen`, `do_fclose` and the calls that write, on `file_list` in memory. Whether a slot is free
is written in its mode.

* `ends_doFopenAt`, `ends_doFcloseAt`, `modeOf_run`: what the calls do to the modes;
* `Handles`, `handleStep`: a state, with the handles that have been returned and not been closed;
* `Tracks`: the slots whose mode is not `u` are these, each once;
* `Tracks.code`: **every call keeps this, if the name that is copied to a slot fits**;
* `handles_accounted`: **so in every run of such calls handles are neither shared nor leaked**;
* `not_accounted`: a name of 32 characters that is not found.
-/

namespace AdvancedOS

variable {m m' : Mem} {fl : Word} {i fp : FileIdx} {s s' : Fs} {pname mode : CStr}
  {o : Option FileIdx} {E : Halt → Fs → Prop}

/-! ## What the calls leave alone -/

theorem bufferedMem_of_notMem {disk : Word → Sector} {x : Word} (hx : x ∉ driveBuffer)
    (cs : List FatIdx) (m : Mem) : bufferedMem disk cs m x = m x := by
  induction cs generalizing m with
  | nil => rfl
  | cons c cs ih =>
    rw [bufferedMem, ih]
    refine store_of_notMem fun hx' => hx ?_
    rwa [List.length_ofFn] at hx'

/-- The search for a file uses no memory but the buffer of the drive. -/
theorem ends_find_mem : Ends (fat12FindEntry pname) s
    (fun _ s' => ∀ x ∉ driveBuffer, s'.mem x = s.mem x) fun _ _ => True :=
  ends_fat12FindEntry (fun _ _ _ => rfl) (fun _ c _ _ hx => bufferedMem_of_notMem hx [c] s.mem)
    fun _ _ _ _ _ => trivial

theorem ends_create_mem (addr : List Byte) (size : ℤ) (name : CStr) :
    Ends (fat12CreateFile addr size name) s (fun _ s' => s'.mem = s.mem)
      fun _ _ => ¬ NameFits name s :=
  (ends_fat12CreateFile addr size name).mpr ⟨fun _ => rfl, fun _ _ => ⟨fun _ => rfl, id⟩⟩

@[simp] theorem ends_changeMem (f : Mem → Mem) {Q : Unit → Fs → Prop} :
    Ends (changeMem f) s Q E ↔ Q () (s.setMem (f s.mem)) := ends_modify _

theorem strcpy_field {x : Word} {n k : ℕ} (hs : pname.length < n) (hx : x ∉ span (field fl i k) n) :
    m.strcpy (field fl i k) pname x = m x := by
  refine store_of_notMem fun hx' => hx (span_subset ?_ hx')
  rw [List.length_append, List.length_singleton]
  exact hs

/-! ## The modes -/

/-- The memory `m'` differs from `m` on `file_list` only in the slot `i`. -/
def SlotOnly (fl : Word) (i : FileIdx) (m m' : Mem) : Prop :=
  ∀ x ∈ fileBytes fl, x ∉ span (field fl i 0) FILE_SIZE → m' x = m x

theorem SlotOnly.trans {m'' : Mem} (h : SlotOnly fl i m m') (h' : SlotOnly fl i m' m'') :
    SlotOnly fl i m m'' := fun x hx hout => (h' x hx hout).trans (h x hx hout)

theorem notMem_field {x : Word} {n k : ℕ} (hk : k + n ≤ FILE_SIZE)
    (hx : x ∉ span (field fl i 0) FILE_SIZE) : x ∉ span (field fl i k) n := by
  intro hx'
  rw [mem_field hk] at hx'
  apply hx
  rw [mem_field (Nat.zero_add _).le]
  omega

theorem slotOnly_strcpy {n k : ℕ} (hs : pname.length < n) (hk : k + n ≤ FILE_SIZE) :
    SlotOnly fl i m (m.strcpy (field fl i k) pname) :=
  fun _ _ hx => strcpy_field hs (notMem_field hk hx)

theorem slotOnly_write {k : ℕ} {w : Word} (hk : k + 4 ≤ FILE_SIZE) :
    SlotOnly fl i m (m.write (field fl i k) w) :=
  fun _ _ hx => write_of_notMem (notMem_field hk hx)

theorem SlotOnly.modeOf {j : FileIdx} (h : SlotOnly fl i m m') (hj : j ≠ i)
    (hlen : (modeOf fl m j).length < 4) : modeOf fl m' j = modeOf fl m j :=
  modeOf_congr hlen fun x hx => h x (field_subset (by decide) hx)
    (field_disjoint (by decide) (by decide) (.inl hj) hx)

theorem modeOf_strcpy (h : mode.length < 4096) :
    modeOf fl (m.strcpy (modeAddr fl i) mode) i = mode := cstr_store h

/-! ## `do_fopen` and `do_fclose` -/

/-- What `do_fopen` leaves and returns if it takes the slot `i`. -/
inductive OpenedAt (fl : Word) (s : Fs) (pname mode : CStr) (i : FileIdx) (s' : Fs) :
    Option FileIdx → Prop where
  | refused : mode ≠ modeW → foundAt s pname = none →
      (∀ x ∈ fileBytes fl, x ∉ span (field fl i 0) 32 → s'.mem x = s.mem x) →
      OpenedAt fl s pname mode i s' none
  | opened : modeOf fl s'.mem i = mode → SlotOnly fl i s.mem s'.mem →
      OpenedAt fl s pname mode i s' (some i)

theorem ends_doFopenAt_full (h : unusedAt fl s.mem = none) :
    Ends (doFopenAt fl pname mode) s (fun o s' => o = none ∧ s' = s) E := by
  simp only [doFopenAt, ends_bind, ends_get, h, ends_pure, and_self]

theorem ends_readSlot {c : Word} (hd : Disjoint (fileBytes fl) driveBuffer)
    (hlen : (modeOf fl s.mem i).length < 4) (hchain : ChainFits s.fat c 1024) :
    Ends (fat12ReadClustersTo (fileBuffer fl i) c) s
      (fun _ s' => modeOf fl s'.mem i = modeOf fl s.mem i ∧ SlotOnly fl i s.mem s'.mem) E := by
  obtain ⟨k, s', hk, hframe⟩ := storesWithin_of_fits hchain (fileBuffer fl i) s.mem
    (hd.mono_left (fileBuffer_subset fl i))
  have hout : ∀ x ∈ fileBytes fl, x ∉ driveBuffer := fun x hx => Set.disjoint_left.mp hd hx
  refine (ends_of_eq_ok hk).mpr ⟨modeOf_congr hlen fun x hx => ?_, fun x hx hx' => ?_⟩
  · have hbuf : 36 + 1024 ≤ FILE_SIZE := by decide
    refine hframe x ?_ (hout x (field_subset (by decide) hx))
    exact field_disjoint (by decide) hbuf (.inr (.inl (by decide))) hx
  · exact hframe x (notMem_field (k := 36) (by decide) hx') (hout x hx)

/-- **`do_fopen` takes the slot `i`**, for a name that fits and a file that fits the buffer. -/
theorem ends_doFopenAt (hd : Disjoint (fileBytes fl) driveBuffer) (hi : unusedAt fl s.mem = some i)
    (hmode : mode = modeR ∨ mode = modeW) (hname : pname.length < 32)
    (hfit : ∀ l ∈ foundAt s pname,
      ChainFits s.fat ((s.volume.entry l).startCluster.setWidth 32) 1024) :
    Ends (doFopenAt fl pname mode) s (fun o s' => OpenedAt fl s pname mode i s' o)
      fun _ _ => ¬ Readable s := by
  have hlen : mode.length < 4 := by
    rcases hmode with rfl | rfl <;> decide
  have hout : ∀ x ∈ fileBytes fl, x ∉ driveBuffer := fun x hx => Set.disjoint_left.mp hd hx
  simp only [doFopenAt, ends_bind, ends_get, hi, ends_changeMem]
  -- the search does not depend on what is in the slot
  obtain ⟨s₁, hs₁⟩ : ∃ s₁, s₁ = s.setMem (s.mem.strcpy (field fl i 0) pname) := ⟨_, rfl⟩
  have hmem₁ : s₁.mem = s.mem.strcpy (field fl i 0) pname := by rw [hs₁]; rfl
  have hv : s₁.volume = s.volume := by rw [hs₁]; rfl
  have hread : Readable s₁ ↔ Readable s := by rw [hs₁]; exact Iff.rfl
  have hfound : foundAt s₁ pname = foundAt s pname := by rw [hs₁]; rfl
  rw [← hs₁]
  have hsearch : Ends (fat12FindEntry pname) s₁ _ _ := ends_search_readable.and ends_find_mem
  refine hsearch.mono ?_ fun _ _ h hr => h.1 (hread.mpr hr)
  rintro p s₂ ⟨⟨hr, hb, hp⟩, hmem₂⟩
  rw [hfound, hv] at hp
  have hname₂ : ∀ x ∈ fileBytes fl, x ∉ span (field fl i 0) 32 → s₂.mem x = s.mem x := by
    intro x hx hx'
    rw [hmem₂ x (hout x hx), hmem₁]
    exact strcpy_field hname hx'
  have hslot₂ : SlotOnly fl i s.mem s₂.mem := fun x hx hx' =>
    hname₂ x hx (notMem_field (by decide) hx')
  cases p with
  | none =>
    have hnone : foundAt s pname = none := Option.map_eq_none_iff.mp hp.symm
    rcases hmode with rfl | rfl
    · have hRW : modeR ≠ modeW := by decide
      simp only [if_neg hRW, if_true, ends_pure]
      exact .refused hRW hnone hname₂
    · simp only [if_true, ends_bind, ends_changeMem, ends_pure]
      refine .opened (modeOf_strcpy (by decide)) (hslot₂.trans ?_)
      exact slotOnly_strcpy hlen (by decide)
  | some p =>
    obtain ⟨l, hl, hent⟩ := Option.map_eq_some_iff.mp hp.symm
    have hfat : s₂.fat = s.fat := congrArg Volume.fat (hb.volume.trans hv)
    simp only [ends_bind, ends_get, ends_changeMem]
    rw [← hent]
    -- the memory before the file is read
    generalize hs₃ : Fs.setMem _ _ = s₃
    have hmem₃ : SlotOnly fl i s₂.mem s₃.mem ∧ modeOf fl s₃.mem i = mode := by
      rw [← hs₃]
      refine ⟨?_, modeOf_strcpy (hlen.trans (by decide))⟩
      refine ((slotOnly_write ?_).trans ((slotOnly_write ?_).trans (slotOnly_write ?_))).trans
        (slotOnly_strcpy hlen ?_) <;> decide
    have hfat₃ : s₃.fat = s.fat := by
      rw [← hs₃]
      exact hfat
    have hchain := hfit l hl
    rw [← hfat₃] at hchain
    refine (ends_readSlot hd (hmem₃.2 ▸ hlen) hchain).mono (fun _ s' hs' => ?_) fun _ _ h => h
    exact (ends_pure _).mpr (.opened (hs'.1.trans hmem₃.2) ((hslot₂.trans hmem₃.1).trans hs'.2))

theorem ends_doFcloseAt : Ends (doFcloseAt fl fp) s
    (fun _ s' => s'.mem = s.mem.strcpy (modeAddr fl fp) unused)
    fun _ _ => modeOf fl s.mem fp = modeW ∧ ¬ NameFits (s.mem.cstr (field fl fp 0)) s := by
  simp only [doFcloseAt, ends_bind, ends_get, ends_ite, ends_changeMem, ends_fsEnable]
  refine ⟨fun hm => (ends_create_mem _ _ _).mono (fun _ s₁ h₁ => ?_) fun _ _ h => ⟨hm, h⟩,
    fun _ => rfl⟩
  rw [← h₁]
  rfl

theorem modeOf_run {w : Write} {r : Word} (hlen : (modeOf fl m i).length < 4)
    (hfit : modeOf fl m w.stream = modeW → ∀ n ∈ w.numBytes m,
      (posOf fl m w.stream - fileBuffer fl w.stream).toNat + n.toNat ≤ 1024)
    (hr : w.run fl m = some (r, m')) : modeOf fl m' i = modeOf fl m i := by
  by_cases hm : modeOf fl m w.stream = modeW
  · have hpos := (toNat_sub_eq_iff (posOf fl m w.stream - fileBuffer fl w.stream).isLt).mp rfl
    obtain ⟨n, d, hn, rfl, -⟩ := Write.run_eq_some hm hr
    have hput := put_fits w.source hpos (hfit hm n hn) d.toNat
    rw [BitVec.ofNat_toNat, BitVec.setWidth_eq] at hput
    refine modeOf_congr hlen fun x hx => hput.field ?_ (.inl (by decide)) hx
    rw [length_copied]
    exact hfit hm n hn
  · rw [Write.run_of_ne hm] at hr
    cases hr
    rfl

/-! ## Runs -/

/-- The state, and the handles that have been returned and not been closed. -/
structure Handles where
  fs : Fs
  handles : List FileIdx

/-- A call on streams. -/
inductive HandleOp where
  | fopen (pname mode : CStr)
  | write (w : Write)
  | fclose (fp : FileIdx)

/-- The code of a call, which says what becomes of the open handles. -/
def HandleOp.code (fl : Word) : HandleOp → FsKern (List FileIdx → List FileIdx)
  | fopen pname mode => do
    let o ← doFopenAt fl pname mode
    return (o.toList ++ ·)
  | write w => do
    match w.run fl (← get).mem with
    | some (_, m) =>
      changeMem fun _ => m
      return id
    | none => throw .loops
  | fclose fp => do
    doFcloseAt fl fp
    return (·.erase fp)

/-- The state after a call that returns. -/
def handleStep (fl : Word) (x : Handles) (op : HandleOp) : Option Handles :=
  match op.code fl x.fs with
  | .ok f s => some ⟨s, f x.handles⟩
  | .error _ _ => none

/-- After `file_init` nothing is open. -/
def nothingOpen (fl : Word) (s : Fs) : Handles := ⟨s.setMem (fileInitAt fl s.mem), []⟩

/-- Files are opened with one of the two modes, what is written and closed is open, and nothing is
transferred beyond the buffer of a slot. -/
def InBuffers (fl : Word) (x : Handles) : HandleOp → Prop
  | .fopen pname mode => (mode = modeR ∨ mode = modeW) ∧
      (unusedAt fl x.fs.mem ≠ none → ∀ l ∈ foundAt x.fs pname,
        ChainFits x.fs.fat ((x.fs.volume.entry l).startCluster.setWidth 32) 1024)
  | .write w => w.stream ∈ x.handles ∧ (modeOf fl x.fs.mem w.stream = modeW →
      ∀ n ∈ w.numBytes x.fs.mem,
        (posOf fl x.fs.mem w.stream - fileBuffer fl w.stream).toNat + n.toNat ≤ 1024)
  | .fclose fp => fp ∈ x.handles

/-- A name that is copied to a slot fits there. -/
def NamesFit (fl : Word) (x : Handles) : HandleOp → Prop
  | .fopen pname _ => unusedAt fl x.fs.mem ≠ none → pname.length < 32
  | .write _ => True
  | .fclose _ => True

/-- The open handles are distinct, and as many as there are slots whose mode is not `u`. -/
structure Accounted (fl : Word) (x : Handles) : Prop where
  distinct : x.handles.Nodup
  count : ((List.finRange MAX_FILE_NUM).filter fun i => modeOf fl x.fs.mem i ≠ unused).length =
    x.handles.length

/-- A call of `do_fopen` that returns `NULL` leaves the modes and the open slots as they are, and
all slots are open or there is no such file to read. -/
structure Refused (fl : Word) (x : Handles) (pname mode : CStr) (s' : Fs) : Prop where
  modes : ∀ i, modeOf fl s'.mem i = modeOf fl x.fs.mem i
  slots : ∀ i, modeOf fl x.fs.mem i ≠ unused → ∀ a ∈ span (field fl i 0) FILE_SIZE,
    s'.mem a = x.fs.mem a
  cause : (∀ i, i ∈ x.handles) ∨ mode = modeR ∧ foundAt x.fs pname = none

variable {x x' : Handles} {op : HandleOp}

/-- The open handles are the slots whose mode is not `u`. -/
structure Tracks (fl : Word) (x : Handles) : Prop where
  distinct : x.handles.Nodup
  modeFits : ∀ i, (modeOf fl x.fs.mem i).length < 4
  isOpen : ∀ i, i ∈ x.handles ↔ modeOf fl x.fs.mem i ≠ unused

theorem Tracks.accounted (h : Tracks fl x) : Accounted fl x := by
  refine ⟨h.distinct, List.Perm.length_eq ?_⟩
  refine (List.perm_ext_iff_of_nodup ((List.nodup_finRange _).filter _) h.distinct).mpr fun i => ?_
  rw [List.mem_filter, h.isOpen, decide_eq_true_eq]
  exact and_iff_right (List.mem_finRange i)

theorem tracks_nothingOpen (fl : Word) (s : Fs) : Tracks fl (nothingOpen fl s) := by
  have hmode : ∀ i, modeOf fl (nothingOpen fl s).fs.mem i = unused := fun i => (fileInitAt_spec i).1
  refine ⟨List.nodup_nil, fun i => ?_, fun i => ?_⟩
  · rw [hmode]
    decide
  · rw [hmode]
    exact iff_of_false List.not_mem_nil fun h => h rfl

theorem unusedAt_mode (h : unusedAt fl m = some i) : modeOf fl m i = unused := by
  simpa using List.find?_some h

theorem Tracks.congr (h : Tracks fl x) (hm : ∀ i, modeOf fl s'.mem i = modeOf fl x.fs.mem i) :
    Tracks fl ⟨s', x.handles⟩ := by
  refine ⟨h.distinct, fun i => ?_, fun i => ?_⟩
  · rw [hm]
    exact h.modeFits i
  · rw [hm]
    exact h.isOpen i

theorem Tracks.refused (h : Tracks fl x) (hi : modeOf fl x.fs.mem i = unused)
    (hs : ∀ a ∈ fileBytes fl, a ∉ span (field fl i 0) 32 → s'.mem a = x.fs.mem a) :
    (∀ j, modeOf fl s'.mem j = modeOf fl x.fs.mem j) ∧
    ∀ j, modeOf fl x.fs.mem j ≠ unused → ∀ a ∈ span (field fl j 0) FILE_SIZE,
      s'.mem a = x.fs.mem a := by
  refine ⟨fun j => modeOf_congr (h.modeFits j) fun a ha => ?_, fun j hj a ha => ?_⟩
  · exact hs a (field_subset (by decide) ha)
      (field_disjoint (by decide) (by decide) (.inr (.inr (by decide))) ha)
  · have hne : j ≠ i := fun he => hj (he ▸ hi)
    exact hs a (field_subset (by decide) ha) (field_disjoint (by decide) (by decide) (.inl hne) ha)

theorem Tracks.opened (h : Tracks fl x) (hi : modeOf fl x.fs.mem i = unused)
    (hmode : mode = modeR ∨ mode = modeW) (hm : modeOf fl s'.mem i = mode)
    (hs : SlotOnly fl i x.fs.mem s'.mem) : Tracks fl ⟨s', i :: x.handles⟩ := by
  have hnew : i ∉ x.handles := fun hmem => (h.isOpen i).mp hmem hi
  refine ⟨List.nodup_cons.mpr ⟨hnew, h.distinct⟩, fun j => ?_, fun j => ?_⟩
  · by_cases hj : j = i
    · rw [hj, hm]
      rcases hmode with rfl | rfl <;> decide
    · rw [hs.modeOf hj (h.modeFits j)]
      exact h.modeFits j
  · rw [List.mem_cons]
    by_cases hj : j = i
    · rw [hj, hm]
      refine iff_of_true (.inl rfl) ?_
      rcases hmode with rfl | rfl <;> decide
    · rw [hs.modeOf hj (h.modeFits j), ← h.isOpen]
      exact or_iff_right hj

theorem Tracks.closed (h : Tracks fl x) (hs : s'.mem = x.fs.mem.strcpy (modeAddr fl fp) unused) :
    Tracks fl ⟨s', x.handles.erase fp⟩ := by
  have hself : modeOf fl s'.mem fp = unused := by
    rw [hs]
    exact modeOf_strcpy (by decide)
  have hother : ∀ j, j ≠ fp → modeOf fl s'.mem j = modeOf fl x.fs.mem j := fun j hj => by
    rw [hs]
    exact (slotOnly_strcpy (n := 4) (by decide) (by decide)).modeOf hj (h.modeFits j)
  refine ⟨h.distinct.erase fp, fun j => ?_, fun j => ?_⟩
  · by_cases hj : j = fp
    · rw [hj, hself]
      decide
    · rw [hother j hj]
      exact h.modeFits j
  · rw [h.distinct.mem_erase_iff]
    by_cases hj : j = fp
    · rw [hj, hself]
      exact iff_of_false (fun hmem => hmem.1 rfl) fun hne => hne rfl
    · rw [hother j hj, ← h.isOpen]
      exact and_iff_right hj

theorem Tracks.fopen (hd : Disjoint (fileBytes fl) driveBuffer) (h : Tracks fl x)
    (hin : InBuffers fl x (.fopen pname mode)) (hname : NamesFit fl x (.fopen pname mode)) :
    Ends (doFopenAt fl pname mode) x.fs
      (fun o s' => Tracks fl ⟨s', o.toList ++ x.handles⟩ ∧ (o = none → Refused fl x pname mode s'))
      fun _ _ => ¬ Readable x.fs := by
  obtain ⟨hmode, hfit⟩ := hin
  cases hu : unusedAt fl x.fs.mem with
  | none =>
    refine (ends_doFopenAt_full hu).mono ?_ fun _ _ h => h
    rintro o s' ⟨rfl, rfl⟩
    refine ⟨h, fun _ => ⟨fun _ => rfl, fun _ _ _ _ => rfl, .inl fun i => (h.isOpen i).mpr ?_⟩⟩
    simpa using List.find?_eq_none.mp hu i (List.mem_finRange i)
  | some i =>
    have hfree : unusedAt fl x.fs.mem ≠ none := by
      rw [hu]
      exact Option.some_ne_none i
    have hi := unusedAt_mode hu
    refine (ends_doFopenAt hd hu hmode (hname hfree) (hfit hfree)).mono ?_ fun _ _ h => h
    rintro o s' htaken
    cases htaken with
    | refused hw hnone hframe =>
      obtain ⟨hmodes, hslots⟩ := h.refused hi hframe
      exact ⟨h.congr hmodes, fun _ => ⟨hmodes, hslots, .inr ⟨hmode.resolve_right hw, hnone⟩⟩⟩
    | opened hm honly =>
      exact ⟨h.opened hi hmode hm honly, fun hn => (Option.some_ne_none i hn).elim⟩

theorem Tracks.code (hd : Disjoint (fileBytes fl) driveBuffer) (h : Tracks fl x)
    (hin : InBuffers fl x op) (hname : NamesFit fl x op) :
    Ends (op.code fl) x.fs (fun f s' => Tracks fl ⟨s', f x.handles⟩) fun _ _ => True := by
  cases op with
  | fopen pname mode =>
    rw [HandleOp.code, ends_bind]
    exact (h.fopen hd hin hname).mono (fun _ _ h => (ends_pure _).mpr h.1) fun _ _ _ => trivial
  | write w =>
    simp only [HandleOp.code, ends_bind, ends_get]
    cases hr : w.run fl x.fs.mem with
    | none => exact (ends_throw _).mpr trivial
    | some p =>
      rw [ends_bind, ends_changeMem]
      refine (ends_pure _).mpr (h.congr fun i => ?_)
      exact modeOf_run (h.modeFits i) hin.2 hr
  | fclose fp =>
    rw [HandleOp.code, ends_bind]
    exact ends_doFcloseAt.mono (fun _ _ hs => (ends_pure _).mpr (h.closed hs)) fun _ _ _ => trivial

theorem tracks_step (hd : Disjoint (fileBytes fl) driveBuffer) (h : Tracks fl x)
    (hin : InBuffers fl x op) (hname : NamesFit fl x op) (hs : handleStep fl x op = some x') :
    Tracks fl x' := by
  have hend := h.code hd hin hname
  unfold handleStep at hs
  cases hr : op.code fl x.fs with
  | ok f s' =>
    rw [hr] at hs
    cases hs
    exact hend.of_ok hr
  | error e s' =>
    rw [hr] at hs
    cases hs

/-- **Handles are never shared or leaked.** In every state that the calls lead to after `file_init`,
as long as the names that are copied to slots fit there, the open handles are distinct and as many
as there are slots whose mode is not `u`; and a call of `do_fopen` that returns `NULL` changes none
of them, and does so for want of a slot or of a file to read. -/
theorem handles_accounted (hd : Disjoint (fileBytes fl) driveBuffer)
    (h : Run.Reach (handleStep fl) (fun x op => InBuffers fl x op ∧ NamesFit fl x op)
      (nothingOpen fl s) x) :
    Accounted fl x ∧ ∀ pname mode s', InBuffers fl x (.fopen pname mode) →
      NamesFit fl x (.fopen pname mode) → doFopenAt fl pname mode x.fs = .ok none s' →
        Refused fl x pname mode s' := by
  have htracks : Tracks fl x := h.invariant (tracks_nothingOpen fl s)
    fun x op x' hx hg hs => tracks_step hd hx hg.1 hg.2 hs
  exact ⟨htracks.accounted, fun pname mode s' hin hname hs =>
    ((htracks.fopen hd hin hname).of_ok hs).2 rfl⟩

/-! ## Files that are not found -/

theorem ends_doFopenAt_missing (hi : unusedAt fl s.mem = some i)
    (hroot : s.currDir = FAT_ROOT_REGION_START) (hnone : findRoot s.rootDir pname = none) :
    Ends (doFopenAt fl pname mode) s (fun o s' => o = (if mode = modeW then some i else none) ∧
      (mode = modeR → s'.mem = s.mem.strcpy (field fl i 0) pname))
      fun _ _ => mode ≠ modeW ∧ mode ≠ modeR := by
  simp only [doFopenAt, ends_bind, ends_get, hi, ends_changeMem]
  refine ends_fat12FindEntry (fun _ => ?_) (fun hne => (hne hroot).elim) fun hne => (hne hroot).elim
  have hnone' : (findRoot (s.setMem (s.mem.strcpy (field fl i 0) pname)).rootDir pname).map
      EntryPtr.root = none := Option.map_eq_none_iff.mpr hnone
  rw [hnone']
  simp only [ends_ite, ends_bind, ends_changeMem, ends_pure, ends_throw]
  refine ⟨fun hw => ⟨(if_pos hw).symm, fun hr => ?_⟩, fun hw =>
    ⟨fun _ => ⟨(if_neg hw).symm, fun _ => rfl⟩, fun hr => ⟨hw, hr⟩⟩⟩
  have hRW : modeR ≠ modeW := by decide
  exact (hRW (hr.symm.trans hw)).elim

theorem exists_step {Q : Option FileIdx → Fs → Prop}
    (h : Ends (doFopenAt fl pname mode) x.fs Q fun _ _ => False) :
    ∃ o s', handleStep fl x (.fopen pname mode) = some ⟨s', o.toList ++ x.handles⟩ ∧ Q o s' := by
  obtain ⟨o, s', hr, hQ⟩ := exists_ok_iff.mpr h
  have hcode : HandleOp.code fl (.fopen pname mode) x.fs = .ok (o.toList ++ ·) s' := by
    have hend : Ends (HandleOp.code fl (.fopen pname mode)) x.fs
        (fun f t => EStateM.Result.ok f t = (.ok (o.toList ++ ·) s' : EStateM.Result Halt Fs _))
        fun e t => EStateM.Result.error e t =
          (.ok (o.toList ++ ·) s' : EStateM.Result Halt Fs (List FileIdx → List FileIdx)) := by
      rw [HandleOp.code, ends_bind]
      exact (ends_of_eq_ok hr).mpr ((ends_pure _).mpr rfl)
    exact (ends_result _ (fun r => r = .ok (o.toList ++ ·) s')).mp hend
  refine ⟨o, s', ?_, hQ⟩
  unfold handleStep
  rw [hcode]

/-- Nothing is open, on a formatted drive. -/
def atStart : Handles := nothingOpen 0x10000 formatted

theorem unusedAt_atStart : unusedAt 0x10000 atStart.fs.mem = some 0 := by
  have hmode : decide (modeOf 0x10000 atStart.fs.mem 0 = unused) = true :=
    decide_eq_true (fileInitAt_spec 0).1
  have hslots : List.finRange MAX_FILE_NUM = 0 :: (List.finRange 9).map Fin.succ :=
    List.finRange_succ
  exact List.find?_eq_some_iff_append.mpr
    ⟨hmode, [], _, hslots, fun _ ha => (List.not_mem_nil ha).elim⟩

theorem disjoint_fileBytes : Disjoint (fileBytes 0x10000) driveBuffer :=
  Set.disjoint_right.mpr fun _ hx => span_disjoint (by decide) (by decide) hx

theorem inBuffers_atStart (hmode : mode = modeR ∨ mode = modeW)
    (h : fat12ConstructFileName (fun _ => 0) ≠ pname) :
    InBuffers 0x10000 atStart (.fopen pname mode) := by
  have hroot : atStart.fs.currDir = FAT_ROOT_REGION_START := rfl
  have hnone : foundAt atStart.fs pname = none := by
    rw [foundAt, if_pos hroot, show findRoot atStart.fs.rootDir pname = none from findRoot_formatted h]
    rfl
  refine ⟨hmode, fun _ l hl => ?_⟩
  rw [hnone] at hl
  exact (Option.not_mem_none l hl).elim

/-- A file is opened for writing. -/
theorem handles_accounted_opened : ∃ x : Handles, x.handles = [0] ∧ Accounted 0x10000 x ∧
    ∀ pname mode s', InBuffers 0x10000 x (.fopen pname mode) →
      NamesFit 0x10000 x (.fopen pname mode) → doFopenAt 0x10000 pname mode x.fs = .ok none s' →
        Refused 0x10000 x pname mode s' := by
  have hname : fat12ConstructFileName (fun _ => 0) ≠ nameAB := by decide +kernel
  have hend := @ends_doFopenAt_missing _ _ _ nameAB modeW unusedAt_atStart rfl
    (findRoot_formatted hname)
  obtain ⟨o, s', hs, ho, -⟩ := exists_step (hend.mono (fun _ _ h => h) fun _ _ h => h.1 rfl)
  have hlist : o.toList ++ atStart.handles = [0] := by
    rw [ho, if_pos rfl]
    rfl
  exact ⟨_, hlist, handles_accounted disjoint_fileBytes (.step _ .init
    ⟨inBuffers_atStart (.inr rfl) hname, fun _ => by decide⟩ hs)⟩

/-- 32 characters. -/
def longName : CStr := .ofChars (List.replicate 32 'a')

/-- The end of a name of 32 characters is stored over the mode. -/
theorem modeOf_longName : modeOf fl (m.strcpy (field fl 0 0) longName) 0 = .ofList [] := by
  have hlen : (longName.toList ++ [0]).length = 33 := by decide
  have hzero : (CStr.ofList []).toList ++ [0] = [0] := by decide
  refine (cstr_eq_iff (by decide)).mpr fun k hk => ?_
  simp only [hzero, List.length_singleton, Nat.lt_one_iff] at hk
  subst hk
  have haddr : modeAddr fl 0 + BitVec.ofNat 32 0 = field fl 0 0 + BitVec.ofNat 32 32 := by
    rw [modeAddr, field, field]
    bv_omega
  rw [haddr, Mem.strcpy, store_of_lt (by rw [hlen]; decide) (by rw [hlen]; decide)]
  rfl

/-- It is not found, nothing is returned, and its slot is free no more. -/
theorem not_accounted : ∃ x : Handles,
    Run.Reach (handleStep 0x10000) (InBuffers 0x10000) (nothingOpen 0x10000 formatted) x ∧
    x.handles = [] ∧ modeOf 0x10000 x.fs.mem 0 = .ofList [] ∧ ¬ Accounted 0x10000 x := by
  have hname : fat12ConstructFileName (fun _ => 0) ≠ longName := by decide +kernel
  have hend := @ends_doFopenAt_missing _ _ _ longName modeR unusedAt_atStart rfl
    (findRoot_formatted hname)
  obtain ⟨o, s', hs, ho, hmem⟩ := exists_step (hend.mono (fun _ _ h => h) fun _ _ h => h.2 rfl)
  have hlist : o.toList ++ atStart.handles = [] := by
    rw [ho, if_neg (by decide)]
    rfl
  have hempty : modeOf 0x10000 s'.mem 0 = .ofList [] := by
    rw [hmem rfl]
    exact modeOf_longName
  refine ⟨_, .step _ .init (inBuffers_atStart (.inl rfl) hname) hs, hlist, hempty, fun h => ?_⟩
  have hcount := h.count
  rw [hlist, List.length_nil, List.length_eq_zero_iff, List.filter_eq_nil_iff] at hcount
  refine hcount 0 (List.mem_finRange 0) (decide_eq_true ?_)
  rw [hempty]
  decide

end AdvancedOS
