import AdvancedOS.File.Open
import AdvancedOS.Lib.Run

/-!
# What a closed stream commits

A run of the calls is observed together with what has been written to every stream since it was
opened.

* `Streams`, `streamStep`: the state with this record;
* `Committed`: the position and the buffer of every stream that is open for writing are those of the
  record, so closing it hands over what was written to it;
* `StartsOver`: `do_fopen` for writing finds the position at the start of the buffer, which is never
  reset;
* `SameLength`: the copy of a string has not changed its length;
* `Fits`, `isSome_fsStep`: what is read and written fits: the call returns;
* `committed_step`: **a call that returns keeps to the record exactly if it starts over, and if the
  string has kept its length**;
* `committed_iff`: **a run goes through, and commits what is written, exactly when this is so of all
  its calls**;
* `not_committed`: two files, one after the other.
-/

namespace AdvancedOS

open Function (update)

variable {t t' : Streams} {s s' : Fs} {op : FsOp} {fp : FileIdx}

/-- The state, and what has been written to each stream since it was opened. -/
structure Streams where
  fs : Fs
  written : FileIdx → List Byte

/-- The bytes that `do_fwrite` takes from `buf`. -/
def takenFrom (buf : ℕ → Byte) (size count : Word) : List Byte :=
  (List.range (size * count).toNat).map buf

/-- The stream that a call writes to, the bytes, and by how much its position moves. -/
def writes (s : Fs) : FsOp → Option (FileIdx × List Byte × ℕ)
  | .fwrite buf size count fp =>
    if (s.fileList fp).mode = modeW then
      some (fp, takenFrom buf size count, (size * count).toNat)
    else none
  | .fputs str again fp =>
    if (s.fileList fp).mode = modeW then some (fp, str.toList, again) else none
  | _ => none

/-- The record after a write. -/
def Streams.append (t : Streams) : Option (FileIdx × List Byte × ℕ) → FileIdx → List Byte
  | some (fp, d, _) => update t.written fp (t.written fp ++ d)
  | none => t.written

/-- What has been written to each stream after a call. -/
def Streams.record (t : Streams) : FsOp → FileIdx → List Byte
  | .fopen _ _ => (unusedFile t.fs.fileList).elim t.written fun fp => update t.written fp []
  | op => t.append (writes t.fs op)

/-- A call, with the record. -/
def streamStep (t : Streams) (op : FsOp) : Option Streams :=
  (fsStep t.fs op).map fun s' => ⟨s', t.record op⟩

/-- The slot `f` holds `l` and nothing else. -/
def Holds (f : FILE) (l : List Byte) : Prop :=
  f.pos = l.length ∧ (List.ofFn f.buffer).take f.pos = l

/-- Every stream that is open for writing holds what was written to it. `do_fclose` hands the buffer
and the position to `fat12_create_file`. -/
def Committed (t : Streams) : Prop :=
  ∀ fp, (t.fs.fileList fp).mode = modeW → Holds (t.fs.fileList fp) (t.written fp)

/-- If a stream is opened for writing, its position is at the start of the buffer. -/
def StartsOver (t : Streams) : FsOp → Prop
  | .fopen _ mode => mode = modeW → ∀ fp ∈ unusedFile t.fs.fileList, (t.fs.fileList fp).pos = 0
  | _ => True

/-- The position moves past what is written. -/
def SameLength (t : Streams) (op : FsOp) : Prop := ∀ w ∈ writes t.fs op, w.2.2 = w.2.1.length

/-- The bytes written to every stream since it was opened fit its buffer. -/
def Within (t : Streams) (op : FsOp) : Prop :=
  ∀ w ∈ writes t.fs op, (t.written w.1).length + w.2.1.length ≤ 1024

instance (t : Streams) (op : FsOp) : Decidable (Within t op) :=
  inferInstanceAs (Decidable (∀ w ∈ writes t.fs op, _))

/-- What is opened, written and closed fits. Other calls return. -/
def Fits (t : Streams) (op : FsOp) : Prop :=
  match op with
  | .fopen pname mode => unusedFile t.fs.fileList ≠ none → Openable t.fs pname mode
  | .fwrite .. | .fputs .. => Within t op
  | .fclose fp => (t.fs.fileList fp).mode = modeW → (newEntry t.fs.rootDir).isSome →
      NameFits (t.fs.fileList fp).name t.fs
  | op => (fsStep t.fs op).isSome

/-- What a call needs to return and to keep to the record. -/
structure Commits (t : Streams) (op : FsOp) : Prop where
  fits : Fits t op
  startsOver : StartsOver t op
  sameLength : SameLength t op

/-! ## The slots after a call -/

/-- The slots `l` are what a write leaves. -/
def AfterWrite (s : Fs) : Option (FileIdx × List Byte × ℕ) → (FileIdx → FILE) → Prop
  | none, l => l = s.fileList
  | some (fp, d, n), l => (s.fileList fp).pos + d.length ≤ 1024 ∧ l = update s.fileList fp
      { s.fileList fp with
        buffer := (s.fileList fp).buffer.write (s.fileList fp).pos d
        pos := (s.fileList fp).pos + n }

/-- The slots `l` are what a call leaves. -/
def SlotsAfter (s : Fs) (op : FsOp) (l : FileIdx → FILE) : Prop :=
  match op with
  | .fopen _ mode =>
    match unusedFile s.fileList with
    | none => l = s.fileList
    | some i => (∀ j, j ≠ i → l j = s.fileList j) ∧ (l i).pos = (s.fileList i).pos ∧
        ((l i).mode = mode ∨ (l i).mode ≠ modeW ∧ mode ≠ modeW)
  | .fclose fp => l = update s.fileList fp { s.fileList fp with mode := unused }
  | op => AfterWrite s (writes s op) l

theorem unusedFile_mode {i : FileIdx} (h : unusedFile s.fileList = some i) :
    (s.fileList i).mode = unused := by
  simpa using List.find?_some h

theorem unused_ne_modeW : unused ≠ modeW := by decide

/-- The write that `do_fwrite` and `do_fputs` have in common. -/
theorem ends_write_slots (fp : FileIdx) (d : List Byte) (n : ℕ) (r : Word) :
    Ends (do
      if ((← get).fileList fp).mode ≠ modeW then return 0
      put fp d n
      return r) s
      (fun _ s' => AfterWrite s
        (if (s.fileList fp).mode = modeW then some (fp, d, n) else none) s'.fileList)
      fun _ _ => ¬ ((s.fileList fp).mode = modeW → (s.fileList fp).pos + d.length ≤ 1024) := by
  simp only [ends_bind, ends_get, ends_ite, ends_pure, ne_eq]
  refine ⟨fun h => ?_, fun h => ?_⟩
  · rw [if_neg h]
    rfl
  · rw [if_pos (not_not.mp h)]
    refine (ends_put _ _).mono (fun _ s' h => ?_) fun _ _ h hfit => h (hfit (not_not.mp ‹_›))
    rw [h.2]
    exact ⟨h.1, rfl⟩

theorem fsStep_slots (hs : fsStep s op = some s') : SlotsAfter s op s'.fileList := by
  refine fsStep_of_ends (P := fun s' => SlotsAfter s op s'.fileList) ?_ hs
  cases op with
  | create addr size name =>
    exact (ends_fat12CreateFile_leaves addr size name).mono (fun _ s' h => h.fileList)
      fun _ _ h => h
  | cp src dst =>
    refine (ends_discard _).mpr ((ends_fat12Cp src dst).mono (fun b s' h => ?_) fun _ _ h => h)
    cases hf : findRoot s.rootDir src with
    | none =>
      rw [(h.1 hf).2]
      exact rfl
    | some i => exact (h.2 i hf).2.fileList
  | rm filename =>
    exact (ends_discard _).mpr (ends_fat12Rm.mono (fun _ s' h => h.fileList) fun _ _ h => h)
  | fopen pname mode =>
    refine (ends_discard _).mpr (ends_doFopen.mono (fun r s' h => ?_) fun _ _ h => h)
    unfold SlotsAfter
    cases hu : unusedFile s.fileList with
    | none =>
      rw [hu] at h
      rw [h.2]
    | some i =>
      rw [hu] at h
      refine ⟨h.other, h.pos, ?_⟩
      rcases h.mode with ⟨-, hm⟩ | ⟨-, hm, hw⟩
      · exact .inl hm
      · rw [hm, unusedFile_mode hu]
        exact .inr ⟨unused_ne_modeW, hw⟩
  | fwrite buf size count fp =>
    exact (ends_discard _).mpr ((ends_write_slots fp _ _ count).mono (fun _ _ h => h)
      fun _ _ _ => trivial)
  | fputs str again fp =>
    exact (ends_discard _).mpr ((ends_write_slots fp _ _ 1).mono (fun _ _ h => h)
      fun _ _ _ => trivial)
  | fclose fp => exact ends_doFclose.mono (fun _ s' h => h.2.2) fun _ _ h => h

/-! ## The invariant -/

theorem take_write {n p : ℕ} (b : Bytes n) (d : List Byte) (h : p + d.length ≤ n) :
    (List.ofFn (b.write p d)).take (p + d.length) = (List.ofFn b).take p ++ d := by
  apply List.ext_getElem
  · simp only [List.length_take, List.length_ofFn, List.length_append]
    omega
  · intro i h₁ h₂
    have hi : i < p + d.length := (List.length_take_le _ _).trans_lt' h₁
    rw [List.getElem_take, List.getElem_ofFn, List.getElem_append]
    split_ifs with hp
    · have hp : i < p := (List.length_take_le _ _).trans_lt' hp
      rw [List.getElem_take, List.getElem_ofFn, Bytes.write, if_neg (Nat.not_le.mpr hp)]
    · have hlen : ((List.ofFn b).take p).length = p := by
        rw [List.length_take, List.length_ofFn]
        omega
      have hpi : p ≤ i := by omega
      simp only [Bytes.write, if_pos hpi, hlen]
      rw [List.getElem?_eq_getElem (by omega), Option.getD_some]

theorem Holds.write {f : FILE} {l d : List Byte} (h : Holds f l) (hd : f.pos + d.length ≤ 1024) :
    Holds { f with buffer := f.buffer.write f.pos d, pos := f.pos + d.length } (l ++ d) := by
  refine ⟨by rw [List.length_append, ← h.1], ?_⟩
  rw [take_write f.buffer d hd, h.2]

theorem Committed.congr {l : FileIdx → FILE} {w : FileIdx → List Byte} {i : FileIdx}
    (h : Committed t) (hl : ∀ j, j ≠ i → l j = t.fs.fileList j)
    (hw : ∀ j, j ≠ i → w j = t.written j) (hi : (l i).mode = modeW → Holds (l i) (w i)) :
    ∀ fp, (l fp).mode = modeW → Holds (l fp) (w fp) := by
  intro fp hm
  by_cases he : fp = i
  · subst he
    exact hi hm
  · rw [hl fp he] at hm ⊢
    rw [hw fp he]
    exact h fp hm

/-- **A write keeps to the record exactly if the position moves past it.** -/
theorem Committed.append {o : Option (FileIdx × List Byte × ℕ)} (h : Committed t)
    (hmode : ∀ w ∈ o, (t.fs.fileList w.1).mode = modeW) (ho : AfterWrite t.fs o s'.fileList) :
    Committed ⟨s', t.append o⟩ ↔ ∀ w ∈ o, w.2.2 = w.2.1.length := by
  match o, hmode, ho with
  | none, _, ho =>
    refine iff_of_true (fun fp hm => ?_) fun _ hw => (Option.not_mem_none _ hw).elim
    have hl : s'.fileList = t.fs.fileList := ho
    simp only [hl] at hm ⊢
    exact h fp hm
  | some (i, d, n), hmode, ⟨hlen, hl⟩ =>
    have hi : (t.fs.fileList i).mode = modeW := hmode _ rfl
    have hw : t.append (some (i, d, n)) i = t.written i ++ d := Function.update_self ..
    simp only [Option.mem_def, Option.some.injEq, forall_eq']
    constructor
    · intro hc
      have hpos := (hc i (by rw [hl, Function.update_self]; exact hi)).1
      simp only [hl, Function.update_self, hw, List.length_append, ← (h i hi).1] at hpos
      omega
    · rintro rfl
      refine h.congr (i := i) (fun j hj => ?_) (fun j hj => Function.update_of_ne hj _ _) ?_
      · rw [hl, Function.update_of_ne hj]
      · intro hm
        rw [hl, Function.update_self] at hm ⊢
        simp only [hw]
        exact (h i hm).write hlen

theorem writes_mode {w : FileIdx × List Byte × ℕ} (h : w ∈ writes s op) :
    (s.fileList w.1).mode = modeW := by
  cases op with
  | fwrite | fputs =>
    simp only [writes, Option.mem_def, Option.ite_none_right_eq_some] at h
    obtain ⟨hm, hw⟩ := h
    cases hw
    exact hm
  | _ => cases h

/-- **A call that returns keeps to the record exactly if a stream that it opens starts over, and a
string that it writes keeps its length.** -/
theorem committed_step (h : Committed t) (hs : streamStep t op = some t') :
    Committed t' ↔ StartsOver t op ∧ SameLength t op := by
  obtain ⟨s', hs', rfl⟩ := Option.map_eq_some_iff.mp hs
  have hslots := fsStep_slots hs'
  have hnone : ∀ {P : Prop}, (P ↔ StartsOver t op) → writes t.fs op = none →
      (P ↔ StartsOver t op ∧ SameLength t op) := fun hP hn => by
    rw [hP, SameLength, hn]
    exact (and_iff_left fun _ hw => (Option.not_mem_none _ hw).elim).symm
  cases op with
  | create | cp | rm =>
    refine hnone (iff_of_true ?_ trivial) rfl
    exact (h.append (o := none) (fun _ hw => (Option.not_mem_none _ hw).elim) hslots).mpr
      fun _ hw => (Option.not_mem_none _ hw).elim
  | fwrite | fputs => exact (h.append (fun _ => writes_mode) hslots).trans (iff_of_eq (true_and _)).symm
  | fclose i =>
    have hl : s'.fileList = update t.fs.fileList i { t.fs.fileList i with mode := unused } := hslots
    refine hnone (iff_of_true (h.congr (i := i) (fun j hj => ?_) (fun _ _ => rfl) ?_) trivial) rfl
    · rw [hl, Function.update_of_ne hj]
    · rw [hl, Function.update_self]
      exact fun hm => (unused_ne_modeW hm).elim
  | fopen pname mode =>
    refine hnone ?_ rfl
    unfold SlotsAfter at hslots
    unfold StartsOver Streams.record
    cases hu : unusedFile t.fs.fileList with
    | none =>
      rw [hu] at hslots
      refine iff_of_true ?_ fun _ fp hfp => (Option.not_mem_none fp hfp).elim
      exact (h.append (o := none) (fun _ hw => (Option.not_mem_none _ hw).elim) hslots).mpr
        fun _ hw => (Option.not_mem_none _ hw).elim
    | some i =>
      rw [hu] at hslots
      obtain ⟨hother, hpos, hmode⟩ := hslots
      simp only [Option.elim_some, Option.mem_def, Option.some.injEq, forall_eq']
      constructor
      · intro hc hw
        have hm : (s'.fileList i).mode = mode := hmode.resolve_right fun hr => hr.2 hw
        have hi := (hc i (hm.trans hw)).1
        simpa [hpos] using hi
      · intro h0
        refine h.congr hother (fun j hj => Function.update_of_ne hj _ _) fun hm => ?_
        have hmw : mode = modeW := (hmode.resolve_right fun hr => hr.1 hm).symm.trans hm
        have hp : (s'.fileList i).pos = 0 := hpos.trans (h0 hmw)
        have hw : update t.written i [] i = [] := Function.update_self ..
        simp only [hw]
        exact ⟨hp, by rw [hp, List.take_zero]⟩

/-! ## Calls that return -/

/-- A call whose code returns exactly where `P` holds. -/
theorem isSome_of_ends {P : Prop} (h : Ends op.code s (fun _ _ => P) fun _ _ => ¬ P) :
    (fsStep s op).isSome ↔ P := by
  unfold fsStep
  unfold Ends at h
  cases hr : op.code s with
  | ok a s' =>
    rw [hr] at h
    exact iff_of_true rfl h
  | error e s' =>
    rw [hr] at h
    exact iff_of_false Bool.false_ne_true h

theorem Committed.pos_eq (h : Committed t) (hm : (t.fs.fileList fp).mode = modeW) :
    (t.fs.fileList fp).pos = (t.written fp).length := (h fp hm).1

theorem isSome_write (h : Committed t) {d : List Byte} {n : ℕ} {r : Word}
    (hcode : op.code = discard (do
      if ((← get).fileList fp).mode ≠ modeW then return 0
      put fp d n
      return r))
    (hw : writes t.fs op = if (t.fs.fileList fp).mode = modeW then some (fp, d, n) else none) :
    (fsStep t.fs op).isSome ↔ Within t op := by
  have hfit : Within t op ↔
      ((t.fs.fileList fp).mode = modeW → (t.fs.fileList fp).pos + d.length ≤ 1024) := by
    unfold Within
    rw [hw]
    split_ifs with hm
    · rw [h.pos_eq hm]
      simp [hm]
    · simp [hm]
  rw [hfit]
  refine isSome_of_ends ?_
  rw [hcode]
  refine (ends_discard _).mpr ((ends_write_slots fp d n r).mono (fun _ _ ho hm => ?_)
    fun _ _ h => h)
  rw [if_pos hm] at ho
  exact ho.1

theorem isSome_fsStep (h : Committed t) : (fsStep t.fs op).isSome ↔ Fits t op := by
  cases op with
  | create | cp | rm => exact Iff.rfl
  | fwrite => exact isSome_write h rfl rfl
  | fputs => exact isSome_write h rfl rfl
  | fopen pname mode =>
    refine isSome_of_ends ((ends_discard _).mpr ?_)
    cases hu : unusedFile t.fs.fileList with
    | none =>
      simp only [doFopen, ends_bind, ends_get, hu, ends_pure]
      exact fun hn => (hn hu).elim
    | some i =>
      have hne : unusedFile t.fs.fileList ≠ none := hu ▸ Option.some_ne_none i
      exact (ends_fopen hu).mono (fun _ _ ho _ => ho.1) fun _ _ ho hf => ho (hf hne)
  | fclose fp =>
    have hlen : unused.length < 4 := by decide
    refine isSome_of_ends ?_
    simp only [FsOp.code, doFclose, setMode, changeFile, ends_bind, ends_get, ends_ite, hlen,
      if_true, ends_changing, ends_fsEnable]
    refine ⟨fun hm => ?_, fun hm hw => (hm hw).elim⟩
    rw [ends_fat12CreateFile]
    refine ⟨fun hn _ hsome => ?_, fun i hi => ⟨fun hfit _ _ => hfit, fun hfit hf => ?_⟩⟩
    · rw [hn] at hsome
      cases hsome
    · exact hfit (hf hm (hi ▸ rfl))

/-! ## The result -/

theorem committed_init {s : Fs} {w : FileIdx → List Byte} (h : fileInit s = .ok () s') :
    Committed ⟨s', w⟩ := by
  intro fp hm
  have hl : s'.fileList fp = emptyFile := by
    cases h
    rfl
  rw [hl] at hm
  exact (unused_ne_modeW hm).elim

/-- **After `file_init` a run goes through, and in every state has in each stream that is open for
writing what was written to it, for `do_fclose` to hand over, exactly when all its calls are sound.**
-/
theorem committed_iff {s s' : Fs} (h : fileInit s = .ok () s') (ops : List FsOp) :
    Run.Keeps streamStep Committed ⟨s', fun _ => []⟩ ops ↔
      Run.Meets streamStep Commits ⟨s', fun _ => []⟩ ops := by
  refine Run.keeps_iff_meets (fun t op ht => ?_) ops _ (committed_init h)
  constructor
  · rintro ⟨t', hs, hc⟩
    obtain ⟨s', hs', -⟩ := Option.map_eq_some_iff.mp hs
    have hiff := (committed_step ht hs).mp hc
    exact ⟨(isSome_fsStep ht).mp (Option.isSome_iff_exists.mpr ⟨s', hs'⟩), hiff.1, hiff.2⟩
  · rintro ⟨hfit, hstart, hlen⟩
    obtain ⟨s', hs'⟩ := Option.isSome_iff_exists.mp ((isSome_fsStep ht).mpr hfit)
    have hs : streamStep t op = some ⟨s', t.record op⟩ := Option.map_eq_some_iff.mpr ⟨s', hs', rfl⟩
    exact ⟨_, hs, (committed_step ht hs).mpr ⟨hstart, hlen⟩⟩

theorem fileInit_formatted : fileInit formatted = .ok () formatted := rfl

theorem committed_iff_oneFile : Run.Keeps streamStep Committed ⟨formatted, fun _ => []⟩ oneFile ↔
    Run.Meets streamStep Commits ⟨formatted, fun _ => []⟩ oneFile :=
  committed_iff fileInit_formatted oneFile

/-- Two files are written in one slot, one byte each: the second is closed with both. -/
theorem not_committed : ∃ t, Run.Reach streamStep Within ⟨formatted, fun _ => []⟩ t ∧
    ((t.fs.fileList 0).mode = modeW ∧ t.written 0 = [0x79] ∧ (t.fs.fileList 0).pos = 2 ∧
      (List.ofFn (t.fs.fileList 0).buffer).take 2 = [0x78, 0x79]) :=
  Run.exists_reach
    (oneFile ++ [.fopen (.ofChars ['c', '.', 'd']) modeW, .fputs (.ofChars ['y']) 1 0])
    _ (by decide +kernel) (by decide +kernel)

end AdvancedOS
